import Mks.Memory.Accesses
import Mks.Memory.Footprint

set_option autoImplicit false

/-! # What accesses of user code leave alone

A read changes the contents of no page, and a write those of its own page only, except for pages
that show memory of the kernel.
-/

namespace Mks.Mem

open CopyOnWrite Space

variable {M : MainMemory} {m m' : Mem} {n f : Nat}

/-- The page becomes writable and holds what it held. -/
theorem WritableFor.leaves (hW : WritableFor n m m') (h : Paged M m) (hn : n ∈ pages) :
    Leaves {n} ∅ m m' := by
  have hn' := mem_pages.mp hn
  cases hW with
  | here _ => exact .refl
  | unprotected hro hf hone =>
      obtain ⟨t, ht⟩ := tableOf_of_frameOf hf
      refine .of_frames (fun c hc hne => ?_) (fun c hc _ => ?_) fun c hc _ g hg _ => ?_
      · exact (h.tables.pte_putPte hn'.2 ht _ hc).trans (if_neg hne)
      · exact h.frameOf_unprotect hn ht (mem_pages.mp hc).2
      · have hgt : g ≠ t := fun e => h.table_unmapped hn ht hc (e ▸ hg)
        rw [unprotect, Tables.putPte_eq ht, put_phys_of_ne hgt]
  | @copied f i hro hf hone hi =>
      obtain ⟨t, ht⟩ := tableOf_of_frameOf hf
      obtain ⟨hmain, -, htab, hmap⟩ := h.free hi
      have hti : t ≠ i := fun e => htab _ (by omega) (e ▸ ht)
      have hframe : ∀ c < 1048576,
          (m.copyOut n f i).frameOf c = if c = n then some i else m.frameOf c :=
        fun c hc => h.frameOf_fillPage hi rfl hn ht hc
      have hphys : ∀ g, g ≠ t →
          (m.copyOut n f i).phys g = Function.update m.phys i (m.phys f) g := by
        intro g hg
        have ht' := (h.fill_tableOf hi rfl : (⟨Function.update (m.alloc i).memMap f
          (m.memMap f - 1), Function.update m.phys i (m.phys f)⟩ : Mem).tableOf = m.tableOf).symm ▸ ht
        rw [Mem.copyOut, Tables.putPte_eq ht', put_phys_of_ne hg]
      refine ⟨fun c hc hne => ?_, fun c hc _ _ => ?_, fun c hc _ hk => ?_⟩
      · exact (h.pte_fillPage hi rfl hn ht hc).trans (if_neg hne)
      · by_cases hcn : c = n
        · subst hcn
          rw [contents_some hf, contents_some ((hframe c hn'.2).trans (if_pos rfl)), hphys i hti.symm,
            Function.update_self]
        · refine contents_congr ((hframe c (mem_pages.mp hc).2).trans (if_neg hcn)) fun g hg => ?_
          have hgt : g ≠ t := fun e => h.table_unmapped hn ht hc (e ▸ hg)
          have hgi : g ≠ i := fun e => hmap c hc (e ▸ hg)
          rw [hphys g hgt, Function.update_of_ne hgi]
      · by_cases hcn : c = n
        · have hfi := (hframe c (mem_pages.mp hc).2).trans (if_pos hcn)
          rw [showsKernel_of_frame hfi]
          exact (Paged.has_ne M hmain).not_gt
        · exact mt (showsKernel_congr ((hframe c (mem_pages.mp hc).2).trans (if_neg hcn))).mp hk

/-- A store to a writable page. -/
theorem Paged.leaves_put (h : Paged M m) (hn : n ∈ pages) (hf : m.frameOf n = some f)
    (hw : writable (m.pte n) = true) (j : Nat) (v : Word) :
    Leaves ∅ {n} m (m.put f j v) ∧ (m.put f j v).frameOf n = some f ∧
      (m.put f j v).contents n = Function.update (m.contents n) j v := by
  obtain ⟨hpte, -⟩ := h.put hn hf hw j v
  have hframe : ∀ c < 1048576, (m.put f j v).frameOf c = m.frameOf c := fun c hc => by
    rw [frameOf, hpte c hc, frameOf]
  have hfn := (hframe n (mem_pages.mp hn).2).trans hf
  have hone : (m.space M).count f = 1 :=
    h.safe.alone n hn f ((space_map hn).trans hf) ((space_writable hn).trans hw)
  refine ⟨.of_frames (fun c hc _ => hpte c hc) (fun c hc _ => hframe c (mem_pages.mp hc).2)
    fun c hc hne g hg _ => put_phys_of_ne ?_ _ _, hfn, ?_⟩
  · -- a writable page has its frame alone
    rintro rfl
    exact hne (h.safe.eq_of_count hone hc hn ((space_map hc).trans hg) ((space_map hn).trans hf))
  · rw [contents_some hfn, contents_some hf]
    exact Function.update_self ..

section
variable {a v : Word} {k : Nat}

/-- **A read**: what the page holds. -/
theorem Paged.userRead_leaves (h : Paged M m) (ha : a ≥ WINDOW)
    (hr : userRead k m a = some (v, m')) :
    Leaves {mapNr a} ∅ m m' ∧
      (¬ m.ShowsKernel (mapNr a) → v = m.contents (mapNr a) (wordNr a)) := by
  have hn := mem_pages_of_ge ha
  obtain ⟨hP, hv⟩ := h.userRead_spec ha hr
  have hl := hP.leaves h hn
  exact ⟨hl, fun hk => hv.trans (by rw [hl.contents _ hn (Set.notMem_empty _) hk])⟩

/-- **A write**: the page gets a frame of its own, and one word of it changes. -/
theorem Paged.userWrite_leaves (h : Paged M m) (ha : a ≥ WINDOW)
    (hr : userWrite k m a v = some m') :
    Leaves {mapNr a} {mapNr a} m m' ∧ ¬ m'.ShowsKernel (mapNr a) ∧
      m'.contents (mapNr a) (wordNr a) = v ∧ (¬ m.ShowsKernel (mapNr a) →
        m'.contents (mapNr a) = Function.update (m.contents (mapNr a)) (wordNr a) v) := by
  have hn := mem_pages_of_ge ha
  obtain ⟨m₁, m₂, g, hP, hW, hg, hw, rfl⟩ := h.userWrite_spec ha hr
  have hp₁ := (hP.quiet h hn).paged
  have hp₂ := (hW.quiet hp₁ hn).paged
  have hl : Leaves {mapNr a} ∅ m m₂ := (hP.leaves h hn).trans (hW.leaves hp₁ hn)
  obtain ⟨hput, hfn, hc⟩ := hp₂.leaves_put hn hg hw (wordNr a) v
  refine ⟨(hl.mono subset_rfl (Set.empty_subset _)).trans (hput.mono (Set.empty_subset _) subset_rfl),
    ?_, ?_, fun hk => ?_⟩
  · rw [showsKernel_of_frame hfn]
    exact (Paged.has_ne M (hp₂.writable_frame hn hg hw).1).not_gt
  · rw [hc, Function.update_self]
  · rw [hc, hl.contents _ hn (Set.notMem_empty _) hk]

end

end Mks.Mem
