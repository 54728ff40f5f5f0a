import Mks.Memory.Quiet

set_option autoImplicit false

/-! # The functions of `kernel/memory.c`

One specification for each function, in terms of the moves of `Memory/Paged.lean`. The mutual
recursion of `get_free_page` ends: a frame below 32MB is mapped already, and if all of these are in
use then the functions do not return.
-/

namespace Mks.Mem

variable {M : MainMemory} {m m' : Mem}

/-! ## `get_free_page` -/

theorem firstUnused_some {n i : Nat} (h : m.firstUnused n = some i) :
    i < n ∧ m.memMap i = UNUSED ∧ ∀ j < i, m.memMap j ≠ UNUSED := by
  simp only [firstUnused, List.find?_range_eq_some, List.mem_range, decide_eq_true_eq] at h
  obtain ⟨hi, hmem, hj⟩ := h
  exact ⟨hmem, hi, fun j hlt => by simpa using hj j hlt⟩

theorem firstUnused_none {n i : Nat} (h : m.firstUnused n = none) (hi : i < n) :
    m.memMap i ≠ UNUSED := by
  simp only [firstUnused, List.find?_eq_none, List.mem_range, decide_eq_true_eq] at h
  exact h i hi

theorem firstFree_some {i : Nat} (h : m.firstFree = some i) :
    i < PAGING_PAGES ∧ m.memMap i = UNUSED ∧ ∀ j < i, m.memMap j ≠ UNUSED := firstUnused_some h

theorem firstFree_none (h : m.firstFree = none) {i : Nat} (hi : i < PAGING_PAGES) :
    m.memMap i ≠ UNUSED := firstUnused_none h hi

/-- The lowest free frame is the first one that the loop meets. -/
theorem firstFree_eq {i : Nat} (hlt : i < PAGING_PAGES) (hun : m.memMap i = UNUSED)
    (hlow : ∀ j < i, m.memMap j ≠ UNUSED) : m.firstFree = some i := by
  cases hf : m.firstFree with
  | none => exact absurd hun (firstFree_none hf hlt)
  | some j =>
      obtain ⟨-, hj, hlow'⟩ := firstFree_some hf
      rcases Nat.lt_trichotomy j i with hji | rfl | hij
      · exact absurd hj (hlow j hji)
      · rfl
      · exact absurd hun (hlow' i hij)

theorem Free.firstFree {i : Nat} (h : Free m i) : ∃ j, m.firstFree = some j ∧ Free m j := by
  cases hj : m.firstFree with
  | none => exact absurd h.unused (firstFree_none hj h.lt_pages)
  | some j =>
      obtain ⟨-, hfree, hlt⟩ := firstFree_some hj
      refine ⟨j, rfl, ⟨?_, hfree⟩⟩
      by_contra hge
      have := h.lt
      exact hlt i (by omega) h.unused

theorem setMap_unused {i : Nat} (hi : m.memMap i = UNUSED) : (m.setMap i 1).setMap i 0 = m := by
  have hmap : Function.update (Function.update m.memMap i 1) i 0 = m.memMap := by
    rw [Function.update_idem, show (0 : BitVec 8) = m.memMap i from hi.symm]
    exact Function.update_eq_self ..
  show ({ m with memMap := Function.update (Function.update m.memMap i 1) i 0 } : Mem) = m
  rw [hmap]

/-- The kernel reaches the first free frame without a fault. -/
theorem getFreePage_mapped {i : Nat} (hf : m.firstFree = some i) (hpage : m.frameOf i = some i)
    (k : Nat) : getFreePage (k + 2) m = some (frameAddr i, m.alloc i) := by
  obtain ⟨hlt, hfree, -⟩ := firstFree_some hf
  have hlt' : i < 16384 := hlt
  have htouch : touch (k + 1) m i = some m := by
    rw [touch, present_entries, mapNr_frameAddr (by omega), hpage]
    rfl
  rw [getFreePage, hf]
  show (if i &&& 0x3FF = 0x3FD then _ else _) = _
  split
  · next h3 =>
      have hmod : i % 1024 = 1021 := by
        rw [← h3]
        exact (Nat.and_two_pow_sub_one_eq_mod i 10).symm
      -- the special case looks for the page table of the frame's own block
      obtain ⟨t, ht⟩ := tableOf_of_frameOf hpage
      have hsame : (m.setMap i 1).tableOf ((i + 2) / 1024) = some t := by
        rw [show (i + 2) / 1024 = i / 1024 by omega]
        exact ht
      have htable : createPageTable (k + 1) (m.setMap i 1) (frameAddr (i + 2))
          = some (0, m.setMap i 1) := by
        rw [createPageTable, present_tableEntry, mapNr_frameAddr (by omega), hsame]
        rfl
      rw [htable, Option.bind_some]
      show (if (0 : Int) = -1 then _ else _) = _
      rw [if_neg (by decide), setMap_unused hfree, htouch]
      rfl
  · rw [htouch]
    rfl

theorem Paged.getFreePage_low (h : Paged M m) {i : Nat} (hf : m.firstFree = some i) (hi : i < 8192)
    (k : Nat) : getFreePage (k + 2) m = some (frameAddr i, m.alloc i) :=
  getFreePage_mapped hf (h.kernelPage hi) k

/-- The first free frame above 32MB would have to be mapped first, with a page table, for which
it is itself the first free frame. -/
theorem Paged.getFreePage_high (h : Paged M m) {i : Nat} (hf : m.firstFree = some i)
    (hi : 8192 ≤ i) (n : Nat) : getFreePage n m = none := by
  obtain ⟨hlt, hfree, hused⟩ := firstFree_some hf
  -- all frames above 32MB are free, so it is the first of them
  have hmain : M.Has i := by
    by_contra hno
    have hc := h.safe.counted i
    have hbase : (m.space M).base i = 1 := by simp [space, hno, hlt]
    have hcount : (m.space M).count i = 0 := by
      show (m.memMap i).toNat = 0
      rw [hfree]
      rfl
    omega
  have hi' : i = 8192 := by
    by_contra hne
    have hhas : M.Has 8192 := ⟨M.lo_le, lt_of_le_of_lt hi hmain.2⟩
    exact hused 8192 (by omega) (h.high 8192 le_rfl hhas)
  subst hi'
  have habs : present (m.tableEntry (frameAddr 8192)) = false := by
    rw [present_tableEntry, mapNr_frameAddr (by decide), h.gap 8 le_rfl (by decide)]
    rfl
  induction n using Nat.strong_induction_on with
  | _ n ih =>
      cases n with
      | zero => rw [getFreePage]
      | succ n =>
          have htouch : touch n m 8192 = none := by
            cases n with
            | zero => rw [touch]
            | succ n =>
                rw [touch, habs, Bool.false_and, if_neg (by decide)]
                cases n with
                | zero => rw [doNoPage]
                | succ n =>
                    rw [doNoPage]
                    cases n with
                    | zero => rw [needTable]; rfl
                    | succ n =>
                        rw [needTable, habs, if_neg (by decide)]
                        cases n with
                        | zero => rw [createPageTable]; rfl
                        | succ n =>
                            rw [createPageTable, habs, if_neg (by decide), ih n (by omega)]
                            rfl
          rw [getFreePage, hf]
          show (if 8192 &&& 0x3FF = 0x3FD then _ else _) = _
          rw [if_neg (by decide), htouch]
          rfl

theorem getFreePage_none (hf : m.firstFree = none) (k : Nat) :
    getFreePage (k + 1) m = some (0, m) := by
  rw [getFreePage, hf]

/-- `get_free_page` returns a free frame, or 0 if there is none. -/
theorem Paged.getFreePage_spec (h : Paged M m) {n : Nat} {p : Word}
    (hr : getFreePage n m = some (p, m')) :
    (p = 0 ∧ m' = m ∧ m.firstFree = none) ∨
      ∃ i, Free m i ∧ p ≠ 0 ∧ p = frameAddr i ∧ m' = m.alloc i := by
  cases hf : m.firstFree with
  | none =>
      cases n with
      | zero =>
          rw [getFreePage] at hr
          cases hr
      | succ n =>
          rw [getFreePage_none hf] at hr
          cases hr
          exact .inl ⟨rfl, rfl, rfl⟩
  | some i =>
      rcases Nat.lt_or_ge i 8192 with hi | hi
      · have hfree : Free m i := ⟨hi, (firstFree_some hf).2.1⟩
        have hne : frameAddr i ≠ 0 := by
          have h16 := Paged.has_ne M (h.free hfree).1
          intro e
          have := mapNr_frameAddr (i := i) (by omega)
          rw [e] at this
          have hz : mapNr 0 = 0 := rfl
          omega
        match n with
        | 0 =>
            rw [getFreePage] at hr
            cases hr
        | 1 =>
            rw [getFreePage, hf] at hr
            simp only [createPageTable, touch] at hr
            split at hr <;> cases hr
        | n + 2 =>
            rw [h.getFreePage_low hf hi] at hr
            cases hr
            exact .inr ⟨i, hfree, hne, rfl, rfl⟩
      · rw [h.getFreePage_high hf hi] at hr
        cases hr

/-! ## Page tables and pages -/

/-- There is a page table, if need be a new one. -/
inductive TableFor (d : Nat) (m : Mem) : Mem → Prop
  | here {t : Nat} (ht : m.tableOf d = some t) : TableFor d m m
  | made {i : Nat} (habs : m.tableOf d = none) (hi : Free m i) : TableFor d m (m.newTable d i)

/-- A page is mapped, if need be to a new frame. -/
inductive PageFor (n : Nat) (m : Mem) : Mem → Prop
  | here {f : Nat} (hf : m.frameOf n = some f) : PageFor n m m
  | made {m₁ : Mem} {i : Nat} (habs : m.frameOf n = none) (hT : TableFor (n / 1024) m m₁)
      (hi : Free m₁ i) : PageFor n m (m₁.newPage n i)

/-- A mapped page is writable, if need be after a write fault. -/
inductive WritableFor (n : Nat) (m : Mem) : Mem → Prop
  | here (hw : writable (m.pte n) = true) : WritableFor n m m
  | unprotected {f : Nat} (hro : writable (m.pte n) = false) (hf : m.frameOf n = some f)
      (hone : m.memMap f = 1) : WritableFor n m (m.unprotect n)
  | copied {f i : Nat} (hro : writable (m.pte n) = false) (hf : m.frameOf n = some f)
      (hone : m.memMap f ≠ 1) (hi : Free m i) : WritableFor n m (m.copyOut n f i)

section
variable {a : Word} {k : Nat}

theorem tableEntry_absent (h : m.tableOf (mapNr a / 1024) = none) :
    present (m.tableEntry a) = false := by
  rw [present_tableEntry, h]
  rfl

theorem tableEntry_present {t : Nat} (h : m.tableOf (mapNr a / 1024) = some t) :
    present (m.tableEntry a) = true := by
  rw [present_tableEntry, h]
  rfl

theorem mem_pages_of_ge (ha : a ≥ WINDOW) : mapNr a ∈ pages := by
  refine mem_pages.mpr ⟨?_, mapNr_lt a⟩
  by_contra hlt
  exact absurd ((lt_window a).mpr (by omega)) (BitVec.not_lt.mpr ha)

theorem Paged.createPageTable_spec (h : Paged M m) {r : Int}
    (hr : createPageTable k m a = some (r, m')) :
    (r = 0 ∧ m' = m ∧ ∃ t, m.tableOf (mapNr a / 1024) = some t) ∨
    (r = -1 ∧ m' = m ∧ m.tableOf (mapNr a / 1024) = none ∧ m.firstFree = none) ∨
    (r = 1 ∧ m.tableOf (mapNr a / 1024) = none ∧
      ∃ i, Free m i ∧ m' = m.newTable (mapNr a / 1024) i) := by
  cases k with
  | zero =>
      rw [createPageTable] at hr
      cases hr
  | succ k =>
      rw [createPageTable] at hr
      cases ht : m.tableOf (mapNr a / 1024) with
      | some t =>
          rw [tableEntry_present ht, if_pos rfl] at hr
          cases hr
          exact .inl ⟨rfl, rfl, t, rfl⟩
      | none =>
          rw [tableEntry_absent ht, if_neg (by decide)] at hr
          obtain ⟨⟨page, m₁⟩, hpage, he⟩ := Option.map_eq_some_iff.mp hr
          rcases h.getFreePage_spec hpage with ⟨rfl, rfl, hno⟩ | ⟨i, hi, hne, rfl, rfl⟩
          · cases he
            exact .inr (.inl ⟨rfl, rfl, rfl, hno⟩)
          · simp only [if_neg hne, Prod.mk.injEq] at he
            obtain ⟨rfl, rfl⟩ := he
            exact .inr (.inr ⟨rfl, rfl, i, hi, store_tablePtr ..⟩)

theorem Paged.needTable_spec (h : Paged M m) (ha : a ≥ WINDOW)
    (hr : needTable k m a = some m') : TableFor (mapNr a / 1024) m m' := by
  induction k generalizing m with
  | zero =>
      rw [needTable] at hr
      cases hr
  | succ k ih =>
      rw [needTable] at hr
      cases ht : m.tableOf (mapNr a / 1024) with
      | some t =>
          rw [tableEntry_present ht, if_pos rfl] at hr
          cases hr
          exact .here ht
      | none =>
          rw [tableEntry_absent ht, if_neg (by decide)] at hr
          obtain ⟨⟨r, m₁⟩, hm₁, hrest⟩ := Option.bind_eq_some_iff.mp hr
          rcases h.createPageTable_spec hm₁ with ⟨-, -, t, ht'⟩ | ⟨-, rfl, -, -⟩ | ⟨-, -, i, hi, rfl⟩
          · rw [ht] at ht'
            cases ht'
          · exact ih h hrest
          · have hd := mem_pages.mp (mem_pages_of_ge ha)
            obtain ⟨v, hmoves⟩ := h.newTable hi (d := mapNr a / 1024) (by omega) (by omega) ht
            have hnew : (m.newTable (mapNr a / 1024) i).tableOf (mapNr a / 1024) = some i := by
              rw [h.tableOf_newTable hi, Function.update_self]
            -- the loop ends, as the table is there
            cases ih hmoves.paged hrest with
            | here => exact .made ht hi
            | made habs hi' =>
                rw [hnew] at habs
                cases habs

end

/-! ### What they change -/

section
variable {n d : Nat}

theorem TableFor.quiet (hT : TableFor d m m') (h : Paged M m) (hd : 16 ≤ d) (hd' : d < 1024) :
    Quiet M ∅ m m' := by
  cases hT with
  | here ht => exact .refl h
  | made habs hi => exact h.quiet_newTable hi hd hd' habs

theorem TableFor.table (hT : TableFor d m m') (h : Paged M m) : ∃ t, m'.tableOf d = some t := by
  cases hT with
  | here ht => exact ⟨_, ht⟩
  | @made i habs hi => exact ⟨i, by rw [h.tableOf_newTable hi, Function.update_self]⟩

/-- The other directory entries stay. -/
theorem TableFor.dir (hT : TableFor d m m') (h : Paged M m) {d' t : Nat}
    (ht : m.tableOf d' = some t) : m'.phys 7 d' = m.phys 7 d' := by
  cases hT with
  | here _ => rfl
  | @made i habs hi =>
      have h7 := Paged.has_ne M (h.free hi).1
      have hne : d' ≠ d := by
        rintro rfl
        rw [habs] at ht
        cases ht
      rw [Mem.newTable, put_phys, Function.update_of_ne hne, alloc_phys,
        Function.update_of_ne (by omega)]

/-- So do the counters of the frames in use. -/
theorem TableFor.memMap (hT : TableFor d m m') {f : Nat} (hf : m.memMap f ≠ UNUSED) :
    m'.memMap f = m.memMap f := by
  cases hT with
  | here _ => rfl
  | @made i habs hi =>
      have hne : f ≠ i := fun e => hf (e ▸ hi.unused)
      exact Function.update_of_ne hne _ _

theorem PageFor.quiet (hP : PageFor n m m') (h : Paged M m) (hn : n ∈ pages) :
    Quiet M {n} m m' := by
  have hn' := mem_pages.mp hn
  cases hP with
  | here hf => exact .refl h
  | @made m₁ i habs hT hi =>
      have hq := hT.quiet h (by omega) (by omega)
      obtain ⟨t, ht⟩ := hT.table h
      have habs₁ : m₁.frameOf n = none := (hq.frameOf hn'.2 (by simp)).trans habs
      exact (hq.mono (by simp)).trans (hq.paged.quiet_newPage hi hn ht habs₁)

/-- A new page is the only use of its frame. -/
theorem PageFor.counter (hP : PageFor n m m') (h : Paged M m) (hn : n ∈ pages)
    (habs : m.frameOf n = none) :
    ∃ f, m'.frameOf n = some f ∧ m'.memMap f = 1 ∧ M.Has f := by
  have hn' := mem_pages.mp hn
  cases hP with
  | here hf =>
      rw [habs] at hf
      cases hf
  | @made m₁ i _ hT hi =>
      have hq := hT.quiet h (by omega) (by omega)
      obtain ⟨t, ht⟩ := hT.table h
      refine ⟨i, ?_, Function.update_self .., (hq.paged.free hi).1⟩
      exact (hq.paged.frameOf_fillPage hi (alloc_phys i) hn ht hn'.2).trans (if_pos rfl)

theorem PageFor.frame (hP : PageFor n m m') (h : Paged M m) (hn : n ∈ pages) :
    ∃ f, m'.frameOf n = some f := by
  cases habs : m.frameOf n with
  | none =>
      obtain ⟨f, hf, -⟩ := hP.counter h hn habs
      exact ⟨f, hf⟩
  | some f =>
      cases hP with
      | here hf => exact ⟨_, hf⟩
      | made habs' => cases habs.symm.trans habs'

theorem PageFor.memMap (hP : PageFor n m m') {f : Nat} (hf : m.memMap f ≠ UNUSED) :
    m'.memMap f = m.memMap f := by
  cases hP with
  | here _ => rfl
  | @made m₁ i habs hT hi =>
      have hkeep := hT.memMap hf
      have hne : f ≠ i := fun e => hf (hkeep.symm.trans (e ▸ hi.unused))
      exact (Function.update_of_ne hne _ _).trans hkeep

end

/-! ## `do_no_page` and `do_wp_page` -/

section
variable {a : Word} {k : Nat}

theorem Free.not_none {i : Nat} (hi : Free m i) : m.firstFree ≠ none := by
  obtain ⟨j, hj, -⟩ := hi.firstFree
  rw [hj]
  exact Option.some_ne_none j

/-- `do_no_page` returns without a page when there is no free frame. -/
theorem Paged.doNoPage_spec (h : Paged M m) (ha : a ≥ WINDOW) (hr : doNoPage k m a = some m') :
    ∃ m₁, TableFor (mapNr a / 1024) m m₁ ∧
      ((m₁.firstFree = none ∧ m' = m₁) ∨ ∃ i, Free m₁ i ∧ m' = m₁.newPage (mapNr a) i) := by
  cases k with
  | zero =>
      rw [doNoPage] at hr
      cases hr
  | succ k =>
      rw [doNoPage] at hr
      obtain ⟨m₁, hm₁, hrest⟩ := Option.bind_eq_some_iff.mp hr
      have hT := h.needTable_spec ha hm₁
      have hd := mem_pages.mp (mem_pages_of_ge ha)
      have hq := hT.quiet h (by omega) (by omega)
      rw [if_neg (BitVec.not_lt.mpr ha)] at hrest
      obtain ⟨⟨p, m₂⟩, hp, he⟩ := Option.map_eq_some_iff.mp hrest
      refine ⟨m₁, hT, ?_⟩
      rcases hq.paged.getFreePage_spec hp with ⟨rfl, rfl, hno⟩ | ⟨i, hi, hne, rfl, rfl⟩
      · exact .inl ⟨hno, he.symm⟩
      · simp only [if_neg hne] at he
        refine .inr ⟨i, hi, he.symm.trans ?_⟩
        exact store_pagePtr _ _ _ _ (hq.paged.fill_dir hi (alloc_phys i)).symm

/-- The copy of `do_wp_page` goes to the frame that has just been cleared. -/
theorem copyPage_alloc {f i : Nat} {c : BitVec 8} {x : Word} (hx : mapNr x = f) (hfi : f ≠ i)
    (hi : i < 1048576) : ((m.alloc i).setMap f c).copyPage x (frameAddr i)
      = ⟨Function.update (m.alloc i).memMap f c, Function.update m.phys i (m.phys f)⟩ := by
  rw [copyPage, mapNr_frameAddr hi, hx, setMap_phys, alloc_phys, Function.update_of_ne hfi,
    Function.update_idem]
  rfl

/-- A write to a page that is mapped. -/
theorem Paged.doWpPage_spec (h : Paged M m) (ha : a ≥ WINDOW) {f : Nat}
    (hf : m.frameOf (mapNr a) = some f) (hr : doWpPage k m a = some m') :
    (m.memMap f = 1 ∧ m' = m.unprotect (mapNr a)) ∨
    (m.memMap f ≠ 1 ∧ m.firstFree = none ∧ m' = m) ∨
    (m.memMap f ≠ 1 ∧ ∃ i, Free m i ∧ m' = m.copyOut (mapNr a) f i) := by
  obtain ⟨t, ht⟩ := tableOf_of_frameOf hf
  have hn := mem_pages_of_ge ha
  have hmap : mapNr (m.pte (mapNr a)) = f := (entryFrame_some hf).2
  simp only [doWpPage, load_pagePtr ht, mapNr_mask, hmap] at hr
  split at hr
  · next hone =>
      cases hr
      exact .inl ⟨hone, store_pagePtr _ _ _ _ rfl⟩
  · next hone =>
      obtain ⟨⟨p, m₁⟩, hp, he⟩ := Option.map_eq_some_iff.mp hr
      rcases h.getFreePage_spec hp with ⟨rfl, rfl, hno⟩ | ⟨i, hi, hne, rfl, rfl⟩
      · exact .inr (.inl ⟨hone, hno, he.symm⟩)
      · have hfi : f ≠ i := fun e => (h.free hi).2.2.2 _ hn (e ▸ hf)
        have hlt := hi.lt
        simp only [if_neg hne] at he
        refine .inr (.inr ⟨hone, i, hi, he.symm.trans ?_⟩)
        have hcount : (m.alloc i).memMap f = m.memMap f := Function.update_of_ne hfi _ _
        rw [copyPage_alloc (by rw [mapNr_mask, hmap]) hfi (by omega), hcount]
        exact store_pagePtr _ _ _ _ (h.fill_dir hi rfl).symm

end

end Mks.Mem
