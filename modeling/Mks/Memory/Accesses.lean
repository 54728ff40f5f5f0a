import Mks.Memory.Sharing

set_option autoImplicit false

/-! # Accesses of user code

A read maps the page if need be; a write also makes it writable. Then the word is read or written
in the frame of the page.
-/

namespace Mks.Mem

open CopyOnWrite Space

variable {M : MainMemory} {m m' : Mem} {n : Nat}

/-! ## Pages that become writable -/

theorem WritableFor.quiet (hW : WritableFor n m m') (h : Paged M m) (hn : n ∈ pages) :
    Quiet M {n} m m' := by
  cases hW with
  | here hw => exact .refl h
  | unprotected hro hf hone => exact h.quiet_unprotect hn hf hone
  | copied hro hf hone hi => exact h.quiet_copyOut hi hn hf hone

/-- The page is mapped and writable. -/
theorem WritableFor.writable (hW : WritableFor n m m') (h : Paged M m) (hn : n ∈ pages) {f : Nat}
    (hf : m.frameOf n = some f) :
    (∃ g, m'.frameOf n = some g) ∧ Mem.writable (m'.pte n) = true := by
  obtain ⟨t, ht⟩ := tableOf_of_frameOf hf
  have hlt := (mem_pages.mp hn).2
  cases hW with
  | here hw => exact ⟨⟨f, hf⟩, hw⟩
  | unprotected hro _ hone =>
      refine ⟨⟨f, (h.frameOf_unprotect hn ht hlt).trans hf⟩, ?_⟩
      rw [unprotect, h.tables.pte_putPte hlt ht _ hlt, if_pos rfl, writable_or_two]
  | @copied g i hro _ hone hi =>
      refine ⟨⟨i, (h.frameOf_fillPage hi rfl hn ht hlt).trans (if_pos rfl)⟩, ?_⟩
      rw [copyOut, h.pte_fillPage hi rfl hn ht hlt, if_pos rfl, writable_or_seven]

/-! ## Reads -/

section
variable {a v : Word} {k : Nat}

theorem errorCode_read : (4 : Word) &&& 1 = 0 := by decide

theorem errorCode_write : (6 : Word) &&& 1 = 0 := by decide

theorem errorCode_protected : ¬ (7 : Word) &&& 1 = 0 := by decide

/-- A page fault, and what follows after the handler: if the page is mapped then, it was the
handler that did it. -/
theorem Paged.fault_spec (h : Paged M m) (ha : a ≥ WINDOW) (habs : m.frameOf (mapNr a) = none)
    {m₁ : Mem} (hr : doNoPage k m a = some m₁) (hP : PageFor (mapNr a) m₁ m') :
    PageFor (mapNr a) m m' := by
  have hn := mem_pages_of_ge ha
  have hn' := mem_pages.mp hn
  obtain ⟨m₂, hT, hcase⟩ := h.doNoPage_spec ha hr
  have hq := hT.quiet h (by omega) (by omega)
  obtain ⟨t, ht⟩ := hT.table h
  rcases hcase with ⟨hno, rfl⟩ | ⟨i, hi, rfl⟩
  · cases hP with
    | here hf =>
        rw [hq.frameOf hn'.2 (by simp), habs] at hf
        cases hf
    | made _ hT' hi =>
        obtain rfl := hT'.eq_of_table ht
        exact absurd hno hi.not_none
  · have hP' : PageFor (mapNr a) m (m₂.newPage (mapNr a) i) := .made habs hT hi
    obtain ⟨f, hf⟩ := hP'.frame h hn
    rw [hP.eq_of_frame hf]
    exact hP'

/-- The invariant after the page-fault handler. -/
theorem Paged.doNoPage_paged (h : Paged M m) (ha : a ≥ WINDOW) (habs : m.frameOf (mapNr a) = none)
    (hr : doNoPage k m a = some m') : Quiet M {mapNr a} m m' := by
  have hn := mem_pages_of_ge ha
  have hn' := mem_pages.mp hn
  obtain ⟨m₁, hT, hcase⟩ := h.doNoPage_spec ha hr
  have hq := (hT.quiet h (by omega) (by omega)).mono (Q := {mapNr a}) (by simp)
  rcases hcase with ⟨-, rfl⟩ | ⟨i, hi, rfl⟩
  · exact hq
  · exact PageFor.quiet (.made habs hT hi) h hn

/-- **A read** gives the word of the page. -/
theorem Paged.userRead_spec (h : Paged M m) (ha : a ≥ WINDOW)
    (hr : userRead k m a = some (v, m')) :
    PageFor (mapNr a) m m' ∧ v = m'.contents (mapNr a) (wordNr a) := by
  induction k generalizing m with
  | zero =>
      rw [userRead] at hr
      cases hr
  | succ k ih =>
      rw [userRead, present_entries] at hr
      cases hf : m.frameOf (mapNr a) with
      | some f =>
          rw [hf, Option.isSome_some, if_pos rfl, (frameOf_pageEntry hf).2] at hr
          cases hr
          exact ⟨.here hf, by rw [contents_some hf]⟩
      | none =>
          rw [hf, Option.isSome_none, if_neg (by decide)] at hr
          obtain ⟨m₁, hm₁, hrest⟩ := Option.bind_eq_some_iff.mp hr
          rw [doIntrPage, if_pos errorCode_read] at hm₁
          obtain ⟨hP, hv⟩ := ih (h.doNoPage_paged ha hf hm₁).paged hrest
          exact ⟨h.fault_spec ha hf hm₁ hP, hv⟩

/-- A read of the kernel window, which is mapped. -/
theorem Paged.userRead_kernel (h : Paged M m) (ha : mapNr a < 8192)
    (hr : userRead k m a = some (v, m')) : m' = m := by
  have hf := h.kernelPage ha
  cases k with
  | zero =>
      rw [userRead] at hr
      cases hr
  | succ k =>
      rw [userRead, present_entries, hf, Option.isSome_some, if_pos rfl] at hr
      cases hr
      rfl

/-! ## Writes -/

/-- A write to the kernel window, which is writable. -/
theorem Paged.userWrite_kernel (h : Paged M m) (ha : mapNr a < 8192)
    (hr : userWrite k m a v = some m') : m' = m.put (mapNr a) (wordNr a) v := by
  have hf := h.kernelPage ha
  cases k with
  | zero =>
      rw [userWrite] at hr
      cases hr
  | succ k =>
      have hw : Mem.writable (m.pte (mapNr a)) = true := by
        rw [h.kernelPte _ ha]
        exact writable_or_seven _
      rw [userWrite, present_entries, hf, Option.isSome_some, if_pos rfl, (frameOf_pageEntry hf).1,
        hw, if_pos rfl, (entryFrame_some hf).2] at hr
      exact (Option.some.inj hr).symm

/-- A write that finds the page mapped. -/
theorem Paged.userWrite_mapped (h : Paged M m) (ha : a ≥ WINDOW) {f : Nat}
    (hf : m.frameOf (mapNr a) = some f) (hr : userWrite k m a v = some m') :
    ∃ m₁ g, WritableFor (mapNr a) m m₁ ∧ m₁.frameOf (mapNr a) = some g ∧
      Mem.writable (m₁.pte (mapNr a)) = true ∧ m' = m₁.put g (wordNr a) v := by
  have hn := mem_pages_of_ge ha
  induction k with
  | zero =>
      rw [userWrite] at hr
      cases hr
  | succ k ih =>
      rw [userWrite, present_entries, hf, Option.isSome_some, if_pos rfl, (frameOf_pageEntry hf).1]
        at hr
      cases hw : Mem.writable (m.pte (mapNr a)) with
      | true =>
          rw [hw, if_pos rfl, (entryFrame_some hf).2] at hr
          exact ⟨m, f, .here hw, hf, hw, (Option.some.inj hr).symm⟩
      | false =>
          rw [hw, if_neg (by decide)] at hr
          obtain ⟨m₁, hm₁, hrest⟩ := Option.bind_eq_some_iff.mp hr
          rw [doIntrPage, if_neg errorCode_protected] at hm₁
          -- after the handler the page is writable, unless there was no frame for a copy
          have hend : WritableFor (mapNr a) m m₁ → ∃ m₁ g, WritableFor (mapNr a) m m₁ ∧
              m₁.frameOf (mapNr a) = some g ∧ Mem.writable (m₁.pte (mapNr a)) = true ∧
              m' = m₁.put g (wordNr a) v := by
            intro hW
            obtain ⟨⟨g, hg⟩, hw₁⟩ := hW.writable h hn hf
            refine ⟨m₁, g, hW, hg, hw₁, ?_⟩
            cases k with
            | zero =>
                rw [userWrite] at hrest
                cases hrest
            | succ k =>
                rw [userWrite, present_entries, hg, Option.isSome_some, if_pos rfl,
                  (frameOf_pageEntry hg).1, hw₁, if_pos rfl, (entryFrame_some hg).2] at hrest
                exact (Option.some.inj hrest).symm
          rcases h.doWpPage_spec ha hf hm₁ with ⟨hone, rfl⟩ | ⟨-, -, rfl⟩ | ⟨hone, i, hi, rfl⟩
          · exact hend (.unprotected hw hf hone)
          · exact ih hrest
          · exact hend (.copied hw hf hone hi)

theorem Paged.userWrite_spec (h : Paged M m) (ha : a ≥ WINDOW)
    (hr : userWrite k m a v = some m') :
    ∃ m₁ m₂ g, PageFor (mapNr a) m m₁ ∧ WritableFor (mapNr a) m₁ m₂ ∧
      m₂.frameOf (mapNr a) = some g ∧ Mem.writable (m₂.pte (mapNr a)) = true ∧
      m' = m₂.put g (wordNr a) v := by
  induction k generalizing m with
  | zero =>
      rw [userWrite] at hr
      cases hr
  | succ k ih =>
      cases hf : m.frameOf (mapNr a) with
      | some f =>
          obtain ⟨m₂, g, hW, hg, hw, he⟩ := h.userWrite_mapped ha hf hr
          exact ⟨m, m₂, g, .here hf, hW, hg, hw, he⟩
      | none =>
          rw [userWrite, present_entries, hf, Option.isSome_none, if_neg (by decide)] at hr
          obtain ⟨m₁, hm₁, hrest⟩ := Option.bind_eq_some_iff.mp hr
          rw [doIntrPage, if_pos errorCode_write] at hm₁
          obtain ⟨m₂, m₃, g, hP, hrest'⟩ := ih (h.doNoPage_paged ha hf hm₁).paged hrest
          exact ⟨m₂, m₃, g, h.fault_spec ha hf hm₁ hP, hrest'⟩

/-- What a write does: the word of the page changes, and nothing else. -/
structure Written (M : MainMemory) (n j : Nat) (v : Word) (m m' : Mem) : Prop where
  paged : Paged M m'
  contents : ∀ b ∈ pages, m.Own M b →
    m'.contents b = Function.update m.contents n (Function.update (m.contents n) j v) b
  own : ∀ b ∈ pages, m.Own M b → m'.Own M b
  pte : ∀ b < 1048576, b ≠ n → m'.pte b = m.pte b
  slack : ∀ f, m'.slack M f = m.slack M f

/-- **A write.** -/
theorem Paged.userWrite_written (h : Paged M m) (ha : a ≥ WINDOW)
    (hr : userWrite k m a v = some m') : Written M (mapNr a) (wordNr a) v m m' := by
  have hn := mem_pages_of_ge ha
  obtain ⟨m₁, m₂, g, hP, hW, hg, hw, rfl⟩ := h.userWrite_spec ha hr
  have hq₁ := hP.quiet h hn
  have hq : Quiet M {mapNr a} m m₂ := hq₁.trans (hW.quiet hq₁.paged hn)
  obtain ⟨hpte, hm⟩ := hq.paged.put hn hg hw (wordNr a) v
  have hlinks : ∀ b, (m₂.space M).OwnLinks zeroFrame b
      [.store (mapNr a) g (Function.update (m₂.phys g) (wordNr a) v)] := by simp [OwnLinks]
  refine ⟨hm.paged, ?_, ?_, ?_, ?_⟩
  · intro b hb ho
    rw [hm.contents hq.paged hb (hq.own b hb ho) (hlinks b)]
    show Function.update m₂.contents (mapNr a) _ b = _
    rw [← contents_some hg]
    by_cases hba : b = mapNr a
    · subst hba
      rw [Function.update_self, Function.update_self, hq.contents _ hb ho]
    · rw [Function.update_of_ne hba, Function.update_of_ne hba, hq.contents b hb ho]
  · exact fun b hb ho => hm.own hq.paged hb (hq.own b hb ho) (hlinks b)
  · exact fun b hb hne => (hpte b hb).trans (hq.pte b hb hne)
  · intro f
    rw [hm.slack hq.paged, hq.slack]
    simp [lostAll, lost]

end

end Mks.Mem
