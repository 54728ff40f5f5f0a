import Mks.Memory.Accesses

set_option autoImplicit false

/-! # The functions return

A page fault takes at most two frames, a page table and a page, and `share_page` three. With so
many free frames below 32MB the functions return: the bounds on the depth are constants.
-/

namespace Mks.Mem

variable {M : MainMemory} {m m' : Mem}

/-- At least `k` frames below 32MB are free. -/
def Frees (m : Mem) (k : Nat) : Prop :=
  k ≤ ((Finset.range 8192).filter fun i => m.memMap i = UNUSED).card

theorem Frees.mono {k k' : Nat} (h : Frees m k) (hk : k' ≤ k) : Frees m k' := le_trans hk h

theorem Frees.free {k : Nat} (h : Frees m (k + 1)) : ∃ i, Free m i := by
  have hpos : 0 < ((Finset.range 8192).filter fun i => m.memMap i = UNUSED).card :=
    lt_of_lt_of_le (Nat.succ_pos k) h
  obtain ⟨i, hi⟩ := Finset.card_pos.mp hpos
  obtain ⟨hlt, hfree⟩ := Finset.mem_filter.mp hi
  exact ⟨i, Finset.mem_range.mp hlt, hfree⟩

/-- Taking a frame leaves one less. -/
theorem Frees.take {k i : Nat} (h : Frees m (k + 1))
    (hm : m'.memMap = Function.update m.memMap i 1) : Frees m' k := by
  have hsub : ((Finset.range 8192).filter fun i => m.memMap i = UNUSED).erase i
      ⊆ (Finset.range 8192).filter fun i => m'.memMap i = UNUSED := by
    intro j hj
    obtain ⟨hne, hj⟩ := Finset.mem_erase.mp hj
    obtain ⟨hlt, hfree⟩ := Finset.mem_filter.mp hj
    refine Finset.mem_filter.mpr ⟨hlt, ?_⟩
    rw [hm, Function.update_of_ne hne, hfree]
  have hle := Finset.card_le_card hsub
  have herase := Finset.pred_card_le_card_erase (a := i)
    (s := (Finset.range 8192).filter fun i => m.memMap i = UNUSED)
  have h : k + 1 ≤ ((Finset.range 8192).filter fun i => m.memMap i = UNUSED).card := h
  show k ≤ _
  omega

theorem Frees.table {d k : Nat} (h : Frees m (k + 1)) (hT : TableFor d m m') : Frees m' k := by
  cases hT with
  | here _ => exact h.mono (by omega)
  | made _ hi => exact h.take rfl

theorem Frees.page {n k : Nat} (h : Frees m (k + 2)) (hP : PageFor n m m') : Frees m' k := by
  cases hP with
  | here _ => exact h.mono (by omega)
  | made _ hT hi => exact (h.table hT).take rfl

section
variable {a b : Word} {k : Nat}

theorem Paged.createPageTable_returns (h : Paged M m) (hf : Frees m 1) :
    ∃ r, createPageTable (k + 3) m a = some r ∧ r.1 ≠ -1 := by
  obtain ⟨i, hi⟩ := hf.free
  obtain ⟨j, hj, hjf⟩ := hi.firstFree
  rw [createPageTable]
  split
  · exact ⟨_, rfl, show (0 : Int) ≠ -1 by decide⟩
  · rw [h.getFreePage_low hj hjf.lt, Option.map_some]
    refine ⟨_, rfl, ?_⟩
    rcases h.getFreePage_spec (h.getFreePage_low hj hjf.lt 0) with ⟨-, -, hno⟩ | ⟨_, -, hne, -, -⟩
    · exact absurd hno hjf.not_none
    · simp only [if_neg hne]
      decide

theorem Paged.needTable_returns (h : Paged M m)
    (hf : m.tableOf (mapNr a / 1024) ≠ none ∨ Frees m 1) :
    ∃ m', needTable (k + 4) m a = some m' := by
  cases ht : m.tableOf (mapNr a / 1024) with
  | some t =>
      rw [needTable, tableEntry_present ht, if_pos rfl]
      exact ⟨m, rfl⟩
  | none =>
      obtain ⟨⟨r, m₁⟩, hr, hne⟩ := h.createPageTable_returns (k := k) (a := a)
        (hf.resolve_left (absurd ht))
      rw [needTable, tableEntry_absent ht, if_neg (by decide), hr, Option.bind_some]
      rcases h.createPageTable_spec hr with ⟨-, -, t, ht'⟩ | ⟨rfl, -⟩ | ⟨-, -, i, hi, rfl⟩
      · rw [ht] at ht'
        cases ht'
      · exact absurd rfl hne
      · have hnew : (m.newTable (mapNr a / 1024) i).tableOf (mapNr a / 1024) = some i := by
          rw [h.tableOf_newTable hi, Function.update_self]
        refine ⟨m.newTable (mapNr a / 1024) i, ?_⟩
        show needTable (k + 3) _ a = _
        rw [needTable, tableEntry_present hnew, if_pos rfl]

/-- `do_no_page` returns, and the page is mapped. -/
theorem Paged.doNoPage_returns (h : Paged M m) (ha : a ≥ WINDOW)
    (habs : m.frameOf (mapNr a) = none)
    (hf : m.tableOf (mapNr a / 1024) ≠ none ∧ Frees m 1 ∨ Frees m 2) :
    ∃ m', doNoPage (k + 5) m a = some m' ∧ PageFor (mapNr a) m m' := by
  have hd := mem_pages.mp (mem_pages_of_ge ha)
  obtain ⟨m₁, hm₁⟩ := h.needTable_returns (k := k) (a := a)
    (hf.imp And.left fun h => h.mono (by omega))
  have hT := h.needTable_spec ha hm₁
  have hq := hT.quiet h (by omega) (by omega)
  have hfree : Frees m₁ 1 := by
    rcases hf with ⟨ht, hf⟩ | hf
    · obtain ⟨t, ht⟩ := Option.ne_none_iff_exists'.mp ht
      rw [hT.eq_of_table ht]
      exact hf
    · exact hf.table hT
  obtain ⟨i, hi⟩ := hfree.free
  obtain ⟨j, hj, hjf⟩ := hi.firstFree
  have hret : ∃ m', doNoPage (k + 5) m a = some m' := by
    rw [doNoPage, hm₁, Option.bind_some, if_neg (BitVec.not_lt.mpr ha),
      hq.paged.getFreePage_low hj hjf.lt]
    exact ⟨_, rfl⟩
  obtain ⟨m', hm'⟩ := hret
  refine ⟨m', hm', ?_⟩
  rw [doNoPage, hm₁, Option.bind_some, if_neg (BitVec.not_lt.mpr ha),
    hq.paged.getFreePage_low hj hjf.lt] at hm'
  rcases hq.paged.getFreePage_spec (hq.paged.getFreePage_low hj hjf.lt 0) with
    ⟨-, -, hno⟩ | ⟨i', -, hne, hi', -⟩
  · exact absurd hno hjf.not_none
  · simp only [Option.map_some, if_neg hne, Option.some.injEq] at hm'
    rw [store_pagePtr _ _ _ _ (hq.paged.fill_dir hjf (alloc_phys j)).symm] at hm'
    exact hm' ▸ .made habs hT hjf

theorem Paged.needFrom_returns (h : Paged M m) (ha : a ≥ WINDOW) (hf : Frees m 2) :
    ∃ m₁ m₂, needFromTable (k + 7) m a = some m₁ ∧ needFromPage (k + 7) m₁ a = some m₂ := by
  have hmapped : ∀ {m : Mem} {f j : Nat}, m.frameOf (mapNr a) = some f →
      needFromTable (j + 1) m a = some m ∧ needFromPage (j + 1) m a = some m := by
    intro m f j hf
    obtain ⟨t, ht⟩ := tableOf_of_frameOf hf
    rw [needFromTable, tableEntry_present ht, needFromPage,
      pageEntry_frame (by rw [ht]; exact Option.some_ne_none t), hf]
    exact ⟨rfl, rfl⟩
  cases hfr : m.frameOf (mapNr a) with
  | some f => exact ⟨m, m, (hmapped hfr).1, (hmapped hfr).2⟩
  | none =>
      obtain ⟨m₁, hm₁, hP⟩ := h.doNoPage_returns (k := k + 1) ha hfr (.inr hf)
      obtain ⟨f, hf₁⟩ := hP.frame h (mem_pages_of_ge ha)
      cases ht : m.tableOf (mapNr a / 1024) with
      | none =>
          refine ⟨m₁, m₁, ?_, (hmapped hf₁).2⟩
          rw [needFromTable, tableEntry_absent ht, if_neg (by decide), hm₁, Option.bind_some]
          exact (hmapped hf₁).1
      | some t =>
          refine ⟨m, m₁, ?_, ?_⟩
          · rw [needFromTable, tableEntry_present ht, if_pos rfl]
          · rw [needFromPage, pageEntry_frame (by rw [ht]; exact Option.some_ne_none t), hfr,
              Option.isSome_none, if_neg (by decide), hm₁, Option.bind_some]
            exact (hmapped hf₁).2

/-- **`share_page` returns** when three frames are free. -/
theorem Paged.sharePage_returns (h : Paged M m) (ha : a ≥ WINDOW) (hf : Frees m 3) :
    ∃ m', sharePage (k + 7) m a b = some m' := by
  obtain ⟨m₁, m₂, hm₁, hm₂⟩ := h.needFrom_returns (k := k) ha (hf.mono (by omega))
  have hP := h.needFrom_spec ha hm₁ hm₂
  have hq := hP.quiet h (mem_pages_of_ge ha)
  obtain ⟨m₃, hm₃⟩ := hq.paged.needTable_returns (k := k + 3) (a := b) (.inr (hf.page hP))
  rw [sharePage, hm₁, Option.bind_some, hm₂, Option.bind_some, hm₃]
  exact ⟨_, rfl⟩

/-- **Reads return** when two frames are free. -/
theorem Paged.userRead_returns (h : Paged M m) (ha : a ≥ WINDOW) (hf : Frees m 2) :
    ∃ v m', userRead (k + 6) m a = some (v, m') := by
  have hmapped : ∀ {m : Mem} {f j : Nat}, m.frameOf (mapNr a) = some f →
      ∃ v m', userRead (j + 1) m a = some (v, m') := by
    intro m f j hf
    rw [userRead, present_entries, hf, Option.isSome_some, if_pos rfl]
    exact ⟨_, _, rfl⟩
  cases hfr : m.frameOf (mapNr a) with
  | some f => exact hmapped hfr
  | none =>
      obtain ⟨m₁, hm₁, hP⟩ := h.doNoPage_returns (k := k) ha hfr (.inr hf)
      obtain ⟨f, hf₁⟩ := hP.frame h (mem_pages_of_ge ha)
      rw [userRead, present_entries, hfr, Option.isSome_none, if_neg (by decide), doIntrPage,
        if_pos errorCode_read, hm₁, Option.bind_some]
      exact hmapped hf₁

/-- A new page is writable. -/
theorem PageFor.writable_of_absent {n : Nat} (hP : PageFor n m m') (h : Paged M m) (hn : n ∈ pages)
    (habs : m.frameOf n = none) : Mem.writable (m'.pte n) = true := by
  have hn' := mem_pages.mp hn
  cases hP with
  | here hf =>
      rw [habs] at hf
      cases hf
  | @made m₁ i _ hT hi =>
      have hq := hT.quiet h (by omega) (by omega)
      obtain ⟨t, ht⟩ := hT.table h
      rw [newPage, hq.paged.pte_fillPage hi (alloc_phys i) hn ht hn'.2, if_pos rfl,
        writable_or_seven]

/-- **Writes return** when two frames are free. -/
theorem Paged.userWrite_returns (h : Paged M m) (ha : a ≥ WINDOW) (hf : Frees m 2) (v : Word) :
    ∃ m', userWrite (k + 6) m a v = some m' := by
  have hn := mem_pages_of_ge ha
  have hwritable : ∀ {m : Mem} {f j : Nat}, m.frameOf (mapNr a) = some f →
      Mem.writable (m.pte (mapNr a)) = true → ∃ m', userWrite (j + 1) m a v = some m' := by
    intro m f j hf hw
    rw [userWrite, present_entries, hf, Option.isSome_some, if_pos rfl, (frameOf_pageEntry hf).1,
      hw, if_pos rfl]
    exact ⟨_, rfl⟩
  cases hfr : m.frameOf (mapNr a) with
  | none =>
      obtain ⟨m₁, hm₁, hP⟩ := h.doNoPage_returns (k := k) ha hfr (.inr hf)
      obtain ⟨f, hf₁⟩ := hP.frame h hn
      rw [userWrite, present_entries, hfr, Option.isSome_none, if_neg (by decide), doIntrPage,
        if_pos errorCode_write, hm₁, Option.bind_some]
      exact hwritable hf₁ (hP.writable_of_absent h hn hfr)
  | some f =>
      cases hw : Mem.writable (m.pte (mapNr a)) with
      | true => exact hwritable hfr hw
      | false =>
          obtain ⟨i, hi⟩ := (hf.mono (show 1 ≤ 2 by omega)).free
          obtain ⟨j, hj, hjf⟩ := hi.firstFree
          obtain ⟨t, ht⟩ := tableOf_of_frameOf hfr
          have hret : ∃ m₁, doWpPage (k + 5) m a = some m₁ := by
            simp only [doWpPage, load_pagePtr ht]
            split
            · exact ⟨_, rfl⟩
            · rw [h.getFreePage_low hj hjf.lt]
              exact ⟨_, rfl⟩
          obtain ⟨m₁, hm₁⟩ := hret
          have hW : WritableFor (mapNr a) m m₁ := by
            rcases h.doWpPage_spec ha hfr hm₁ with ⟨hone, rfl⟩ | ⟨-, hno, -⟩ | ⟨hone, i, hi, rfl⟩
            · exact .unprotected hw hfr hone
            · exact absurd hno hjf.not_none
            · exact .copied hw hfr hone hi
          obtain ⟨⟨g, hg⟩, hw₁⟩ := hW.writable h hn hfr
          rw [userWrite, present_entries, hfr, Option.isSome_some, if_pos rfl,
            (frameOf_pageEntry hfr).1, hw, if_neg (by decide), doIntrPage,
            if_neg errorCode_protected, hm₁, Option.bind_some]
          exact hwritable hg hw₁

end

end Mks.Mem
