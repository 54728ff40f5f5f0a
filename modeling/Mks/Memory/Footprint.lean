import Mks.Memory.Sharing

set_option autoImplicit false

/-! # What `share_page` leaves alone

Whether or not the counter of the frame overflows, `share_page` changes the entries of its two
pages and the contents of page `to`, and nothing else that a process sees, unless the process sees
memory of the kernel itself.
-/

namespace Mks.Mem

/-- Page `n` is mapped to one of the first 160 frames, the 640KB of the kernel: its code and
variables, and the page directory. -/
def ShowsKernel (m : Mem) (n : Nat) : Prop := ∃ f < 160, m.frameOf n = some f

theorem showsKernel_of_frame {m : Mem} {n f : Nat} (hf : m.frameOf n = some f) :
    m.ShowsKernel n ↔ f < 160 := by
  rw [ShowsKernel, hf]
  exact ⟨fun ⟨g, hg, he⟩ => Option.some.inj he ▸ hg, fun h => ⟨f, h, rfl⟩⟩

theorem showsKernel_congr {m m' : Mem} {n : Nat} (h : m'.frameOf n = m.frameOf n) :
    m'.ShowsKernel n ↔ m.ShowsKernel n := by
  rw [ShowsKernel, h, ShowsKernel]

/-- Page-table entries change for pages in `P`. The contents change for pages in `C` and for those
that show the kernel. -/
structure Leaves (P C : Set Nat) (m m' : Mem) : Prop where
  pte : ∀ n < 1048576, n ∉ P → m'.pte n = m.pte n
  contents : ∀ n ∈ pages, n ∉ C → ¬ m.ShowsKernel n → m'.contents n = m.contents n
  kernel : ∀ n ∈ pages, n ∉ C → ¬ m.ShowsKernel n → ¬ m'.ShowsKernel n

variable {M : MainMemory} {m m₁ m' : Mem} {P P' C C' : Set Nat}

theorem Leaves.refl : Leaves P C m m := ⟨fun _ _ _ => rfl, fun _ _ _ _ => rfl, fun _ _ _ h => h⟩

theorem Leaves.mono (h : Leaves P C m m') (hP : P ⊆ P') (hC : C ⊆ C') : Leaves P' C' m m' :=
  ⟨fun n hn hnP => h.pte n hn fun hn => hnP (hP hn),
    fun n hn hnC => h.contents n hn fun hn => hnC (hC hn),
    fun n hn hnC => h.kernel n hn fun hn => hnC (hC hn)⟩

theorem Leaves.trans (h : Leaves P C m m₁) (h' : Leaves P C m₁ m') : Leaves P C m m' where
  pte n hn hnP := (h'.pte n hn hnP).trans (h.pte n hn hnP)
  contents n hn hnC hk :=
    (h'.contents n hn hnC (h.kernel n hn hnC hk)).trans (h.contents n hn hnC hk)
  kernel n hn hnC hk := h'.kernel n hn hnC (h.kernel n hn hnC hk)

/-- Pages keep their contents when neither their entry nor their frame changes. -/
theorem contents_congr {n : Nat} (hframe : m'.frameOf n = m.frameOf n)
    (hphys : ∀ f, m.frameOf n = some f → m'.phys f = m.phys f) : m'.contents n = m.contents n := by
  cases hf : m.frameOf n with
  | none => rw [contents_none hf, contents_none (hframe.trans hf)]
  | some f => rw [contents_some hf, contents_some (hframe.trans hf), hphys f hf]

/-- Changes that keep the frames of all pages outside `C`, and overwrite only frames that none of
these pages has. -/
theorem Leaves.of_frames (hpte : ∀ n < 1048576, n ∉ P → m'.pte n = m.pte n)
    (hframe : ∀ n ∈ pages, n ∉ C → m'.frameOf n = m.frameOf n)
    (hphys : ∀ n ∈ pages, n ∉ C → ∀ f, m.frameOf n = some f → 160 ≤ f →
      m'.phys f = m.phys f) : Leaves P C m m' where
  pte := hpte
  contents n hn hnC hk := contents_congr (hframe n hn hnC) fun f hf =>
    hphys n hn hnC f hf (Nat.le_of_not_lt fun e => hk ⟨f, e, hf⟩)
  kernel n hn hnC hk := mt (showsKernel_congr (hframe n hn hnC)).mp hk

/-! ## Page tables and pages -/

/-- No page is mapped to a page table. -/
theorem Paged.table_unmapped (h : Paged M m) {n c t : Nat} (hn : n ∈ pages)
    (ht : m.tableOf (n / 1024) = some t) (hc : c ∈ pages) : m.frameOf c ≠ some t := by
  intro hf
  have hn' := mem_pages.mp hn
  have hzero := (h.page c hc t hf).2 (h.page_table hn ht).1
  have hone : 1 ≤ m.tableRefs t :=
    RefCount.one_le_count (Finset.mem_range.mpr (by omega)) ht
  omega

theorem TableFor.leaves {d : Nat} (hT : TableFor d m m') (h : Paged M m) : Leaves ∅ ∅ m m' := by
  cases hT with
  | here _ => exact .refl
  | @made i habs hi =>
      have hpte : ∀ n < 1048576, (m.newTable d i).pte n = m.pte n := fun n hn =>
        h.pte_newTable hi habs hn
      refine .of_frames (fun n hn _ => hpte n hn) (fun n hn _ => ?_) fun n hn _ f hf hge => ?_
      · rw [frameOf, hpte n (mem_pages.mp hn).2, frameOf]
      · have hfi : f ≠ i := fun e => (h.free hi).2.2.2 n hn (e ▸ hf)
        rw [Mem.newTable, put_phys_of_ne (by omega : f ≠ 7), alloc_phys, Function.update_of_ne hfi]

/-- A page that gets a frame has held zeros all along. -/
theorem Paged.leaves_newPage (h : Paged M m) {n t i : Nat} (hi : Free m i) (hn : n ∈ pages)
    (ht : m.tableOf (n / 1024) = some t) (habs : m.frameOf n = none) :
    Leaves {n} ∅ m (m.newPage n i) := by
  obtain ⟨-, -, htab, hmap⟩ := h.free hi
  have hn' := mem_pages.mp hn
  have hti : t ≠ i := fun e => htab _ (by omega) (e ▸ ht)
  have hframe : ∀ c < 1048576, (m.newPage n i).frameOf c = if c = n then some i else m.frameOf c :=
    fun c hc => h.frameOf_fillPage hi (alloc_phys i) hn ht hc
  have hphys : ∀ f, f ≠ t → (m.newPage n i).phys f = (m.alloc i).phys f := fun f hf => by
    have ht' : (m.alloc i).tableOf (n / 1024) = some t := h.fill_tableOf hi (alloc_phys i) ▸ ht
    rw [Mem.newPage, Tables.putPte_eq ht', put_phys_of_ne hf]
  refine ⟨fun c hc hne => ?_, fun c hc _ _ => ?_, fun c hc _ hk => ?_⟩
  · exact (h.pte_fillPage hi (alloc_phys i) hn ht hc).trans (if_neg hne)
  · by_cases hcn : c = n
    · subst hcn
      rw [contents_none habs, contents_some ((hframe c hn'.2).trans (if_pos rfl)), hphys i hti.symm,
        alloc_phys, Function.update_self]
    · refine contents_congr ((hframe c (mem_pages.mp hc).2).trans (if_neg hcn)) fun f hf => ?_
      have hft : f ≠ t := fun e => h.table_unmapped hn ht hc (e ▸ hf)
      have hfi : f ≠ i := fun e => hmap c hc (e ▸ hf)
      rw [hphys f hft, alloc_phys, Function.update_of_ne hfi]
  · by_cases hcn : c = n
    · have hfi := (hframe c (mem_pages.mp hc).2).trans (if_pos hcn)
      rw [showsKernel_of_frame hfi]
      exact (Paged.has_ne M (h.free hi).1).not_gt
    · exact mt (showsKernel_congr ((hframe c (mem_pages.mp hc).2).trans (if_neg hcn))).mp hk

theorem PageFor.leaves {n : Nat} (hP : PageFor n m m') (h : Paged M m) (hn : n ∈ pages) :
    Leaves {n} ∅ m m' := by
  have hn' := mem_pages.mp hn
  cases hP with
  | here _ => exact .refl
  | @made m₁ i habs hT hi =>
      have hq := hT.quiet h (by omega) (by omega)
      obtain ⟨t, ht⟩ := hT.table h
      have habs₁ : m₁.frameOf n = none := (hq.frameOf hn'.2 (by simp)).trans habs
      exact ((hT.leaves h).mono (by simp) le_rfl).trans
        (hq.paged.leaves_newPage hi hn ht habs₁)

theorem TablesApart.leaves_kernelStore (h : TablesApart m) {f : Nat} (hf : IsKernelFrame f)
    (j : Nat) (v : Word) : Leaves ∅ ∅ m (m.put f j v) := by
  have hpte : ∀ n < 1048576, (m.put f j v).pte n = m.pte n := fun n hn =>
    h.pte_kernelStore hf j v hn
  refine .of_frames (fun n hn _ => hpte n hn) (fun n hn _ => ?_) fun n hn _ g hg hge => ?_
  · rw [frameOf, hpte n (mem_pages.mp hn).2, frameOf]
  · have := hf.1
    exact put_phys_of_ne (by omega) _ _

/-! ## Sharing -/

theorem Paged.leaves_share (h : Paged M m) {a b t f : Nat} (ha : a ∈ pages) (hb : b ∈ pages)
    (ht : m.tableOf (b / 1024) = some t) (hf : m.frameOf a = some f) :
    Leaves {a, b} {b} m (m.share a b f) := by
  obtain ⟨t', ht'⟩ := tableOf_of_frameOf hf
  have hT := h.tableOf_link (a := a) (f := f) hb ht
  refine .of_frames (fun n hn hne => ?_) (fun n hn hne => ?_) fun n hn _ g hg _ => ?_
  · exact (h.pte_share ha hb ht hf hn).trans (if_neg hne)
  · exact (h.frameOf_share ha hb ht hf (mem_pages.mp hn).2).trans (if_neg hne)
  · -- only the two page tables are written
    have hgt : g ≠ t := fun e => h.table_unmapped hb ht hn (e ▸ hg)
    have hgt' : g ≠ t' := fun e => h.table_unmapped ha ht' hn (e ▸ hg)
    have hlink : (m.link a b f).phys g = m.phys g := by
      have ht₁ : (m.setMap f (m.memMap f + 1)).tableOf (b / 1024) = some t := ht
      rw [Mem.link, Tables.putPte_eq ht₁, put_phys_of_ne hgt, setMap_phys]
    rw [Mem.share, Tables.putPte_eq (hT ▸ ht'), put_phys_of_ne hgt', hlink]

section
variable {a b : Word} {k : Nat}

/-- **`share_page`**: both pages have one frame, and all else is left alone. -/
theorem Paged.sharePage_leaves (h : Paged M m) (ha : a ≥ WINDOW) (hb : b ≥ WINDOW)
    (hr : sharePage k m a b = some m') :
    Leaves {mapNr a, mapNr b} {mapNr b} m m' ∧
      ∃ f, m'.frameOf (mapNr a) = some f ∧ m'.frameOf (mapNr b) = some f := by
  have hn := mem_pages_of_ge ha
  have hbn := mem_pages_of_ge hb
  have hn' := mem_pages.mp hn
  have hbn' := mem_pages.mp hbn
  obtain ⟨m₁, m₂, f, hP, hT, -, hf, rfl⟩ := h.sharePage_spec ha hb hr
  have hq₁ := hP.quiet h hn
  have hq₂ := hT.quiet hq₁.paged (by omega) (by omega)
  obtain ⟨t, ht⟩ := hT.table hq₁.paged
  have hframe : ∀ c < 1048576, (m₂.share (mapNr a) (mapNr b) f).frameOf c =
      if c = mapNr b then some f else m₂.frameOf c :=
    fun c hc => hq₂.paged.frameOf_share hn hbn ht hf hc
  refine ⟨?_, f, ?_, (hframe _ hbn'.2).trans (if_pos rfl)⟩
  · have h₁ : Leaves {mapNr a, mapNr b} {mapNr b} m m₁ :=
      (hP.leaves h hn).mono (by simp) (by simp)
    have h₂ : Leaves {mapNr a, mapNr b} {mapNr b} m₁ m₂ :=
      (hT.leaves hq₁.paged).mono (by simp) (by simp)
    exact (h₁.trans h₂).trans (hq₂.paged.leaves_share hn hbn ht hf)
  · rw [hframe _ hn'.2]
    split
    · rfl
    · exact hf

theorem Paged.sharePage_tablesApart (h : Paged M m) (ha : a ≥ WINDOW) (hb : b ≥ WINDOW)
    (hr : sharePage k m a b = some m') : TablesApart m' := by
  have hn := mem_pages_of_ge ha
  have hbn' := mem_pages.mp (mem_pages_of_ge hb)
  obtain ⟨m₁, m₂, f, hP, hT, -, hf, rfl⟩ := h.sharePage_spec ha hb hr
  have hp₁ := (hP.quiet h hn).paged
  have hp₂ := (hT.quiet hp₁ (by omega) (by omega)).paged
  obtain ⟨t, ht⟩ := hT.table hp₁
  obtain ⟨t', ht'⟩ := tableOf_of_frameOf hf
  have hlink : (m₂.link (mapNr a) (mapNr b) f).tableOf = m₂.tableOf :=
    hp₂.tableOf_link (mem_pages_of_ge hb) ht
  have ht'' : (m₂.link (mapNr a) (mapNr b) f).tableOf (mapNr a / 1024) = some t' := hlink ▸ ht'
  rw [TablesApart, Mem.share,
    (hp₂.tables.congr hlink).tableOf_putPte (mem_pages.mp hn).2 ht'', hlink]
  exact hp₂.tablesApart

/-- No mapped frame has the counter 0: no counter has overflowed. -/
def InUse (m : Mem) : Prop := ∀ n ∈ pages, ∀ f, m.frameOf n = some f → m.memMap f ≠ UNUSED

theorem Paged.inUse (h : Paged M m) : m.InUse := by
  intro n hn f hf e
  have hone := h.safe.one_le hn ((space_map (M := M) hn).trans hf)
  have hone : 1 ≤ (m.memMap f).toNat := hone
  rw [e] at hone
  exact absurd hone (by decide)

/-- The frame that has been shared is in use only if its counter was not 255. -/
theorem Paged.noWrap_of_inUse (h : Paged M m) (ha : a ≥ WINDOW) (hb : b ≥ WINDOW)
    (hr : sharePage k m a b = some m') (hu : m'.InUse) : m.NoWrap (mapNr a) := by
  intro f hf hc
  have hn := mem_pages_of_ge ha
  have hbn := mem_pages_of_ge hb
  have hbn' := mem_pages.mp hbn
  obtain ⟨m₁, m₂, g, hP, hT, hf₁, hf₂, rfl⟩ := h.sharePage_spec ha hb hr
  obtain rfl := hP.eq_of_frame hf
  obtain rfl := Option.some.inj (hf.symm.trans hf₁)
  obtain ⟨t, ht⟩ := hT.table h
  have hq := hT.quiet h (by omega) (by omega)
  have hcount : m₂.memMap f = 255 := by
    rw [hT.memMap (by rw [hc]; decide), hc]
  have hb₂ := (hq.paged.frameOf_share hn hbn ht hf₂ hbn'.2).trans (if_pos rfl)
  refine hu _ hbn f hb₂ ?_
  have hshare : (m₂.share (mapNr a) (mapNr b) f).memMap f = m₂.memMap f + 1 :=
    Function.update_self ..
  rw [hshare, hcount]
  rfl

/-- The invariant after `share_page`, if the frame is in use. -/
theorem Paged.sharePage_paged (h : Paged M m) (ha : a ≥ WINDOW) (hb : b ≥ WINDOW)
    (hr : sharePage k m a b = some m') (hu : m'.InUse) : Paged M m' :=
  (h.sharePage_shared ha hb (h.noWrap_of_inUse ha hb hr hu) hr).paged

end

end Mks.Mem
