import Mks.Memory.Window

set_option autoImplicit false

/-! # The functions of `kernel/memory.c`, called in any order

What each function does to a memory whose kernel window is well formed, at any address and for any
number of free frames. The retry loops need not end; the results are those of the calls that return.
-/

namespace Mks.Mem

variable {m m' : Mem} {hi : Nat}

/-! ## The bound on the depth -/

/-- A greater bound gives the same results. -/
structure Deeper (n : Nat) : Prop where
  getFreePage : ∀ m r, getFreePage n m = some r → getFreePage (n + 1) m = some r
  touch : ∀ m i r, touch n m i = some r → touch (n + 1) m i = some r
  createPageTable : ∀ m a r, createPageTable n m a = some r → createPageTable (n + 1) m a = some r
  needTable : ∀ m a r, needTable n m a = some r → needTable (n + 1) m a = some r
  doNoPage : ∀ m a r, doNoPage n m a = some r → doNoPage (n + 1) m a = some r

theorem deeper (n : Nat) : Deeper n := by
  induction n with
  | zero =>
      constructor
      case getFreePage =>
        intro m r h
        rw [getFreePage] at h
        cases h
      case touch =>
        intro m i r h
        rw [touch] at h
        cases h
      case createPageTable =>
        intro m a r h
        rw [createPageTable] at h
        cases h
      case needTable =>
        intro m a r h
        rw [needTable] at h
        cases h
      case doNoPage =>
        intro m a r h
        rw [doNoPage] at h
        cases h
  | succ n ih =>
      -- one level of each function, the calls it makes are those of the hypothesis
      constructor
      case getFreePage =>
        intro m r h
        rw [getFreePage] at h ⊢
        cases hf : m.firstFree with
        | none => simpa only [hf] using h
        | some i =>
            simp only [hf] at h ⊢
            split_ifs at h ⊢ with h3
            · obtain ⟨⟨j, m₁⟩, hc, h⟩ := Option.bind_eq_some_iff.mp h
              rw [ih.createPageTable _ _ _ hc, Option.bind_some]
              dsimp only at h ⊢
              split_ifs at h ⊢ with hj
              · exact h
              · obtain ⟨m₂, ht, h⟩ := Option.map_eq_some_iff.mp h
                rw [ih.touch _ _ _ ht, Option.map_some, h]
            · obtain ⟨m₂, ht, h⟩ := Option.map_eq_some_iff.mp h
              rw [ih.touch _ _ _ ht, Option.map_some, h]
      case touch =>
        intro m i r h
        rw [touch] at h ⊢
        split_ifs at h ⊢ with hp
        · exact h
        · exact ih.doNoPage _ _ _ h
      case createPageTable =>
        intro m a r h
        rw [createPageTable] at h ⊢
        split_ifs at h ⊢ with hp
        · exact h
        · obtain ⟨x, hg, h⟩ := Option.map_eq_some_iff.mp h
          rw [ih.getFreePage _ _ hg, Option.map_some, h]
      case needTable =>
        intro m a r h
        rw [needTable] at h ⊢
        split_ifs at h ⊢ with hp
        · exact h
        · obtain ⟨x, hc, h⟩ := Option.bind_eq_some_iff.mp h
          rw [ih.createPageTable _ _ _ hc, Option.bind_some]
          exact ih.needTable _ _ _ h
      case doNoPage =>
        intro m a r h
        rw [doNoPage] at h ⊢
        obtain ⟨m₁, hn, h⟩ := Option.bind_eq_some_iff.mp h
        rw [ih.needTable _ _ _ hn, Option.bind_some]
        dsimp only at h ⊢
        split_ifs at h ⊢ with hw
        · exact h
        · obtain ⟨x, hg, h⟩ := Option.map_eq_some_iff.mp h
          rw [ih.getFreePage _ _ hg, Option.map_some, h]

theorem mono_of_succ {α : Type} {f : Nat → Option α} (h : ∀ n r, f n = some r → f (n + 1) = some r)
    {n k : Nat} {r : α} (hr : f n = some r) (hk : n ≤ k) : f k = some r := by
  induction hk with
  | refl => exact hr
  | step _ ih => exact h _ _ ih

theorem getFreePage_mono {n k : Nat} {r : Word × Mem} (h : getFreePage n m = some r)
    (hk : n ≤ k) : getFreePage k m = some r :=
  mono_of_succ (f := fun n => getFreePage n m) (fun n r => (deeper n).getFreePage m r) h hk

theorem needTable_mono {n k : Nat} {a : Word} (h : needTable n m a = some m') (hk : n ≤ k) :
    needTable k m a = some m' :=
  mono_of_succ (f := fun n => needTable n m a) (fun n r => (deeper n).needTable m a r) h hk

theorem doNoPage_mono {n k : Nat} {a : Word} (h : doNoPage n m a = some m') (hk : n ≤ k) :
    doNoPage k m a = some m' :=
  mono_of_succ (f := fun n => doNoPage n m a) (fun n r => (deeper n).doNoPage m a r) h hk

theorem needFromTable_succ {n : Nat} {a : Word} (h : needFromTable n m a = some m') :
    needFromTable (n + 1) m a = some m' := by
  induction n generalizing m with
  | zero =>
      rw [needFromTable] at h
      cases h
  | succ n ih =>
      rw [needFromTable] at h ⊢
      split_ifs at h ⊢ with hp
      · exact h
      · obtain ⟨m₁, hd, h⟩ := Option.bind_eq_some_iff.mp h
        rw [doNoPage_mono hd (Nat.le_succ n), Option.bind_some]
        exact ih h

theorem needFromPage_succ {n : Nat} {a : Word} (h : needFromPage n m a = some m') :
    needFromPage (n + 1) m a = some m' := by
  induction n generalizing m with
  | zero =>
      rw [needFromPage] at h
      cases h
  | succ n ih =>
      rw [needFromPage] at h ⊢
      split_ifs at h ⊢ with hp
      · exact h
      · obtain ⟨m₁, hd, h⟩ := Option.bind_eq_some_iff.mp h
        rw [doNoPage_mono hd (Nat.le_succ n), Option.bind_some]
        exact ih h

theorem needFromTable_mono {n k : Nat} {a : Word} (h : needFromTable n m a = some m')
    (hk : n ≤ k) : needFromTable k m a = some m' :=
  mono_of_succ (f := fun n => needFromTable n m a) (fun _ _ => needFromTable_succ) h hk

theorem needFromPage_mono {n k : Nat} {a : Word} (h : needFromPage n m a = some m')
    (hk : n ≤ k) : needFromPage k m a = some m' :=
  mono_of_succ (f := fun n => needFromPage n m a) (fun _ _ => needFromPage_succ) h hk

/-! ## `get_free_page` -/

section
variable {i : Nat}

theorem touch_covered (hlt : i < PAGING_PAGES) (hcov : m.Covered i)
    (k : Nat) : touch (k + 3) m i = some (m.reach i) := by
  have hnr := mapNr_frameAddr (i := i) (lt_frames hlt)
  obtain ⟨t, ht⟩ := Option.ne_none_iff_exists'.mp hcov
  have hwin : frameAddr i < WINDOW := (lt_window _).mpr (by rw [hnr]; exact hlt)
  rw [touch, present_entries, hnr, Mem.reach]
  split_ifs
  · rfl
  · rw [doNoPage, needTable, tableEntry_present (hnr.symm ▸ ht), if_pos rfl, Option.bind_some,
      if_pos hwin, store_pagePtr _ _ _ _ rfl]
    rfl

/-- The first free frame is returned if there is a page table for its address. -/
theorem getFreePage_covered (hf : m.firstFree = some i)
    (hcov : m.Covered i) (k : Nat) : getFreePage (k + 4) m = some (frameAddr i, m.grab i) := by
  obtain ⟨hlt, hfree, -⟩ := firstFree_some hf
  have hlt' : i < 16384 := hlt
  rw [getFreePage, hf]
  show (if i &&& 0x3FF = 0x3FD then _ else _) = _
  split
  · next h3 =>
      have hmod : i % 1024 = 1021 := by
        rw [← h3]
        exact (Nat.and_two_pow_sub_one_eq_mod i 10).symm
      -- the special case looks for the page table of the frame's own block
      obtain ⟨t, ht⟩ := Option.ne_none_iff_exists'.mp hcov
      have hsame : (m.setMap i 1).tableOf (mapNr (frameAddr (i + 2)) / 1024) = some t := by
        rw [mapNr_frameAddr (by omega), show (i + 2) / 1024 = i / 1024 by omega]
        exact ht
      rw [createPageTable, tableEntry_present hsame, if_pos rfl, Option.bind_some]
      show (if (0 : Int) = -1 then _ else _) = _
      rw [if_neg (by decide), setMap_unused hfree, touch_covered hlt hcov]
      rfl
  · rw [touch_covered hlt hcov]
    rfl

/-- A free frame without a page table for its address comes first only as the first frame of its
block of 4MB. -/
theorem Window.uncovered_first (h : Window hi m) (hf : m.firstFree = some i)
    (hno : ¬ m.Covered i) : 8192 ≤ i ∧ i % 1024 = 0 := by
  obtain ⟨hlt, hfree, hused⟩ := firstFree_some hf
  have hge : 8192 ≤ i := by
    by_contra hlow
    exact hno (h.covered_low (by omega))
  refine ⟨hge, ?_⟩
  by_contra hmod
  have hblock : i / 1024 * 1024 / 1024 = i / 1024 := by omega
  have hno' : ¬ m.Covered (i / 1024 * 1024) := by
    unfold Covered at hno ⊢
    rwa [hblock]
  have hihi := (h.untouched i hge hlt hno).mp hfree
  refine hused (i / 1024 * 1024) (by omega) ?_
  exact (h.untouched _ (by omega) (by unfold PAGING_PAGES at hlt ⊢; omega) hno').mpr (by omega)

/-- Clearing a frame without a page table faults; the fault needs a page table, for which the same
frame is found again. -/
theorem getFreePage_uncovered (hf : m.firstFree = some i) (hno : ¬ m.Covered i)
    (hmod : i % 1024 ≠ 1021) (n : Nat) : getFreePage n m = none := by
  have hlt := (firstFree_some hf).1
  have hnr := mapNr_frameAddr (i := i) (lt_frames hlt)
  have h3 : ¬ i &&& 0x3FF = 0x3FD := by
    show ¬ i &&& 2 ^ 10 - 1 = 0x3FD
    rw [Nat.and_two_pow_sub_one_eq_mod]
    exact hmod
  have habs : present (m.tableEntry (frameAddr i)) = false :=
    tableEntry_absent (by rw [hnr]; exact not_not.mp hno)
  induction n using Nat.strong_induction_on with
  | _ n ih =>
      cases n with
      | zero => rw [getFreePage]
      | succ n =>
          have htouch : touch n m i = none := by
            cases n with
            | zero => rw [touch]
            | succ n =>
                rw [touch, habs, Bool.false_and, if_neg (by decide)]
                cases n with
                | zero => rw [doNoPage]
                | succ n =>
                    rw [doNoPage]
                    cases n with
                    | zero => rw [needTable]; rfl
                    | succ n =>
                        rw [needTable, habs, if_neg (by decide)]
                        cases n with
                        | zero => rw [createPageTable]; rfl
                        | succ n =>
                            rw [createPageTable, habs, if_neg (by decide), ih n (by omega)]
                            rfl
          rw [getFreePage, hf]
          show (if i &&& 0x3FF = 0x3FD then _ else _) = _
          rw [if_neg h3, htouch]
          rfl

theorem Window.getFreePage_uncovered (h : Window hi m) (hf : m.firstFree = some i)
    (hno : ¬ m.Covered i) (n : Nat) : getFreePage n m = none := by
  have hmod := (h.uncovered_first hf hno).2
  exact Mem.getFreePage_uncovered hf hno (by omega) n

/-- What `get_free_page` does when it returns. -/
inductive Got (m : Mem) : Word → Mem → Prop
  | noFrame (hf : m.firstFree = none) : Got m 0 m
  | frame {i : Nat} (hf : m.firstFree = some i) (hcov : m.Covered i) (hne : frameAddr i ≠ 0) :
      Got m (frameAddr i) (m.grab i)

theorem Window.getFreePage_got (h : Window hi m) {n : Nat} {p : Word}
    (hr : getFreePage n m = some (p, m')) : Got m p m' := by
  cases hf : m.firstFree with
  | none =>
      have hdet := getFreePage_mono hr (Nat.le_succ n)
      rw [getFreePage_none hf] at hdet
      cases hdet
      exact .noFrame hf
  | some i =>
      by_cases hcov : m.Covered i
      · have hdet := getFreePage_mono hr (Nat.le_add_right n 4)
        rw [getFreePage_covered hf hcov] at hdet
        cases hdet
        obtain ⟨hlt, hun, -⟩ := firstFree_some hf
        exact .frame hf hcov (h.frame_ne_zero hun hlt).2
      · rw [h.getFreePage_uncovered hf hcov] at hr
        cases hr

/-- `get_free_page` returns if and only if there is no free frame, or the first one is covered. -/
theorem Window.getFreePage_returns (h : Window hi m) :
    (∃ n r, getFreePage n m = some r) ↔ ∀ i, m.firstFree = some i → m.Covered i := by
  constructor
  · rintro ⟨n, ⟨p, m₁⟩, hr⟩ i hf
    cases h.getFreePage_got hr with
    | noFrame hf' =>
        rw [hf] at hf'
        cases hf'
    | frame hf' hcov _ =>
        rw [hf] at hf'
        obtain rfl := Option.some.inj hf'
        exact hcov
  · intro hall
    cases hf : m.firstFree with
    | none => exact ⟨1, _, getFreePage_none hf 0⟩
    | some i => exact ⟨4, _, getFreePage_covered hf (hall i hf) 0⟩

theorem Got.window {p : Word} (hg : Got m p m') (h : Window hi m) : Window hi m' := by
  cases hg with
  | noFrame _ => exact h
  | frame hf hcov _ =>
      obtain ⟨hlt, hun, -⟩ := firstFree_some hf
      exact h.grab hun hlt hcov

end

/-! ## Page tables and pages -/

/-- There is a page table for block `d`, if need be a new one. -/
inductive HasTable (d : Nat) (m : Mem) : Mem → Prop
  | here (ht : m.tableOf d ≠ none) : HasTable d m m
  | made {i : Nat} (habs : m.tableOf d = none) (hf : m.firstFree = some i) (hcov : m.Covered i) :
      HasTable d m (m.addTable d i)

/-- The new page of `do_no_page`, in frame `i`. -/
def addPage (m : Mem) (n i : Nat) : Mem := (m.grab i).putPte n (frameAddr i ||| 7)

/-- What `do_no_page` does when it returns. -/
inductive Handled (a : Word) (m : Mem) : Mem → Prop
  | window {m₁ : Mem} (hT : HasTable (mapNr a / 1024) m m₁) (ha : a < WINDOW) :
      Handled a m (m₁.mapSelf a)
  | noFrame {m₁ : Mem} (hT : HasTable (mapNr a / 1024) m m₁) (ha : ¬ a < WINDOW)
      (hf : m₁.firstFree = none) : Handled a m m₁
  | page {m₁ : Mem} {i : Nat} (hT : HasTable (mapNr a / 1024) m m₁) (ha : ¬ a < WINDOW)
      (hf : m₁.firstFree = some i) (hcov : m₁.Covered i) : Handled a m (m₁.addPage (mapNr a) i)

section
variable {a : Word} {d k : Nat}

theorem Window.createPageTable_result (h : Window hi m) {r : Int}
    (hr : createPageTable k m a = some (r, m')) :
    (r = -1 ∧ m' = m ∧ m.tableOf (mapNr a / 1024) = none ∧ m.firstFree = none) ∨
      HasTable (mapNr a / 1024) m m' := by
  cases k with
  | zero =>
      rw [createPageTable] at hr
      cases hr
  | succ k =>
      rw [createPageTable] at hr
      cases ht : m.tableOf (mapNr a / 1024) with
      | some t =>
          rw [tableEntry_present ht, if_pos rfl] at hr
          cases hr
          exact .inr (.here (by rw [ht]; exact Option.some_ne_none t))
      | none =>
          rw [tableEntry_absent ht, if_neg (by decide)] at hr
          obtain ⟨⟨page, m₁⟩, hpage, he⟩ := Option.map_eq_some_iff.mp hr
          cases h.getFreePage_got hpage with
          | noFrame hf =>
              cases he
              exact .inl ⟨rfl, rfl, rfl, hf⟩
          | frame hf hcov hne =>
              simp only [if_neg hne, Prod.mk.injEq] at he
              obtain ⟨-, rfl⟩ := he
              rw [store_tablePtr]
              exact .inr (.made ht hf hcov)

theorem HasTable.window (hT : HasTable d m m') (h : Window hi m) (hd : d < 1024) :
    Window hi m' := by
  cases hT with
  | here _ => exact h
  | made habs hf hcov =>
      obtain ⟨hlt, hun, -⟩ := firstFree_some hf
      exact h.addTable hun hlt hcov hd habs

theorem HasTable.table (hT : HasTable d m m') (h : Window hi m) : m'.tableOf d ≠ none := by
  cases hT with
  | here ht => exact ht
  | @made i habs hf hcov =>
      obtain ⟨hlt, hun, -⟩ := firstFree_some hf
      rw [h.addTable_tableOf hun hlt hcov, Function.update_self]
      exact Option.some_ne_none i

theorem HasTable.eq_of_table (hT : HasTable d m m') (ht : m.tableOf d ≠ none) : m' = m := by
  cases hT with
  | here _ => rfl
  | made habs => exact absurd habs ht

theorem block_lt (a : Word) : mapNr a / 1024 < 1024 := by
  have := mapNr_lt a
  omega

theorem Window.needTable_result (h : Window hi m) (hr : needTable k m a = some m') :
    HasTable (mapNr a / 1024) m m' := by
  induction k generalizing m with
  | zero =>
      rw [needTable] at hr
      cases hr
  | succ k ih =>
      rw [needTable] at hr
      cases ht : m.tableOf (mapNr a / 1024) with
      | some t =>
          rw [tableEntry_present ht, if_pos rfl] at hr
          cases hr
          exact .here (by rw [ht]; exact Option.some_ne_none t)
      | none =>
          rw [tableEntry_absent ht, if_neg (by decide)] at hr
          obtain ⟨⟨r, m₁⟩, hm₁, hrest⟩ := Option.bind_eq_some_iff.mp hr
          rcases h.createPageTable_result hm₁ with ⟨-, rfl, -, -⟩ | hT
          · exact ih h hrest
          · -- the loop ends, as the table is there
            rw [(ih (hT.window h (block_lt a)) hrest).eq_of_table (hT.table h)]
            exact hT

theorem Window.addPage (h : Window hi m) {n i : Nat} (hf : m.firstFree = some i)
    (hcov : m.Covered i) (hn : n < 1048576) (hge : 16384 ≤ n) (ht : m.tableOf (n / 1024) ≠ none) :
    Window hi (m.addPage n i) := by
  obtain ⟨hlt, hun, -⟩ := firstFree_some hf
  have hT := h.grab_tableOf hun hlt hcov
  refine (h.grab hun hlt hcov).putPte hn (by rwa [hT]) (entryFrame_frameAddr (lt_frames hlt))
    (fun hlow => absurd hlow (by omega)) hlt ?_
  unfold Covered
  rw [hT]
  exact hcov

theorem Window.addPage_frameOf (h : Window hi m) {n i : Nat} (hf : m.firstFree = some i)
    (hcov : m.Covered i) (hn : n < 1048576) (ht : m.tableOf (n / 1024) ≠ none) :
    (m.addPage n i).frameOf n = some i := by
  obtain ⟨hlt, hun, -⟩ := firstFree_some hf
  have hlt' : i < 16384 := hlt
  obtain ⟨t, ht⟩ := Option.ne_none_iff_exists'.mp ht
  rw [Mem.addPage, (h.grab hun hlt hcov).tables.frameOf_putPte hn
    (by rw [h.grab_tableOf hun hlt hcov]; exact ht) _ hn, if_pos rfl, entryFrame_frameAddr (by omega)]

theorem window_le (ha : ¬ a < WINDOW) : 16384 ≤ mapNr a := by
  rw [lt_window] at ha
  omega

theorem Handled.window_kept (hH : Handled a m m') (h : Window hi m) : Window hi m' := by
  cases hH with
  | window hT ha =>
      exact (hT.window h (block_lt a)).mapSelf ((lt_window a).mp ha) (hT.table h)
  | noFrame hT _ _ => exact hT.window h (block_lt a)
  | page hT ha hf hcov =>
      exact (hT.window h (block_lt a)).addPage hf hcov (mapNr_lt a) (window_le ha) (hT.table h)

theorem Window.doNoPage_result (h : Window hi m) (hr : doNoPage k m a = some m') :
    Handled a m m' := by
  cases k with
  | zero =>
      rw [doNoPage] at hr
      cases hr
  | succ k =>
      rw [doNoPage] at hr
      obtain ⟨m₁, hm₁, hrest⟩ := Option.bind_eq_some_iff.mp hr
      have hT := h.needTable_result hm₁
      have h₁ := hT.window h (block_lt a)
      dsimp only at hrest
      split_ifs at hrest with ha
      · cases hrest
        rw [store_pagePtr _ _ _ _ rfl]
        exact .window hT ha
      · obtain ⟨⟨p, m₂⟩, hp, he⟩ := Option.map_eq_some_iff.mp hrest
        cases h₁.getFreePage_got hp with
        | noFrame hf =>
            cases he
            exact .noFrame hT ha hf
        | frame hf hcov hne =>
            obtain ⟨hlt, hun, -⟩ := firstFree_some hf
            simp only [if_neg hne] at he
            have hdir := h₁.grab_dir hun hlt hcov
            rw [← he, store_pagePtr _ _ _ _ hdir.symm]
            exact .page hT ha hf hcov

/-! ## Write faults and sharing -/

/-- The copy that `do_wp_page` makes of a frame with more than one user. -/
theorem Window.copy (h : Window hi m) {f i : Nat} (hun : m.memMap i = UNUSED)
    (hlt : i < PAGING_PAGES) (hcov : m.Covered i) (hf : m.Covered f) (hone : m.memMap f ≠ 1)
    (src : Word) :
    Window hi (((m.grab i).setMap f ((m.grab i).memMap f - 1)).copyPage src (frameAddr i)) ∧
      (((m.grab i).setMap f ((m.grab i).memMap f - 1)).copyPage src (frameAddr i)).phys 7
        = m.phys 7 := by
  have hnri := mapNr_frameAddr (i := i) (lt_frames hlt)
  have hT := h.grab_tableOf hun hlt hcov
  have hu := h.unlinked hun
  have hset : Window hi ((m.grab i).setMap f ((m.grab i).memMap f - 1)) := by
    refine (h.grab hun hlt hcov).setMap (fun htk => ?_) ((covered_congr hT f).mpr hf)
    -- a frame that is never given away has a count of at least 2
    have hfi : f ≠ i := by
      rintro rfl
      refine h.used f ?_ hun
      unfold Taken at htk ⊢
      rwa [hT] at htk
    rw [grab_memMap, Function.update_of_ne hfi]
    exact fun e => hone (sub_eq_zero.mp e)
  unfold copyPage
  rw [hnri]
  constructor
  · refine hset.fill ⟨hu.ne_dir, fun d hd => ?_⟩ hset.used fun _ _ => rfl
    show (m.grab i).tableOf d ≠ some i
    rw [hT]
    exact hu.ne_table d hd
  · rw [← h.grab_dir hun hlt hcov]
    exact Function.update_of_ne hu.ne_dir.symm _ _

/-- `do_wp_page` for a page of a process that is mapped. -/
theorem Window.doWpPage_window (h : Window hi m) (ha : ¬ a < WINDOW)
    (hmap : m.frameOf (mapNr a) ≠ none) (hr : doWpPage k m a = some m') : Window hi m' := by
  obtain ⟨f, hf⟩ := Option.ne_none_iff_exists'.mp hmap
  obtain ⟨t, ht⟩ := tableOf_of_frameOf hf
  obtain ⟨hfp, hfc⟩ := h.page _ (mapNr_lt a) f hf
  have hge := window_le ha
  have htne : m.tableOf (mapNr a / 1024) ≠ none := by
    rw [ht]
    exact Option.some_ne_none t
  have hnr : mapNr (m.pte (mapNr a)) = f := (entryFrame_some hf).2
  simp only [doWpPage, load_pagePtr ht, mapNr_mask, hnr] at hr
  split_ifs at hr with hone
  · cases hr
    rw [store_pagePtr _ _ _ _ rfl]
    refine h.putPte (mapNr_lt a) htne ?_ (fun hlow => absurd hlow (by omega)) hfp hfc
    rw [entryFrame_or_two]
    exact hf
  · obtain ⟨⟨p, m₁⟩, hp, he⟩ := Option.map_eq_some_iff.mp hr
    cases h.getFreePage_got hp with
    | noFrame hno =>
        cases he
        exact h
    | @frame i hi' hcov hne =>
        obtain ⟨hlt, hun, -⟩ := firstFree_some hi'
        simp only [if_neg hne] at he
        obtain ⟨hcopy, hcdir⟩ := h.copy hun hlt hcov hfc hone (m.pte (mapNr a) &&& 0xFFFFF000)
        have hcT := tableOf_congr hcdir
        rw [← he, store_pagePtr _ _ _ _ hcdir.symm]
        exact hcopy.putPte (mapNr_lt a) (hcT ▸ htne) (entryFrame_frameAddr (lt_frames hlt))
          (fun hlow => absurd hlow (by omega)) hlt ((covered_congr hcT i).mpr hcov)

theorem add_one_ne_unused {c : BitVec 8} (h : c ≠ 255) : c + 1 ≠ UNUSED := by
  intro e
  have hc := toNat_add_one h
  rw [e] at hc
  exact absurd hc (Nat.succ_ne_zero _).symm

/-- The counter of the frame that `share_page` shares can go up. -/
def Countable (m : Mem) (a : Word) : Prop :=
  ∀ f, m.frameOf (mapNr a) = some f ∨ a < WINDOW ∧ f = mapNr a → m.memMap f ≠ 255

/-- The counters when only free frames have been taken. -/
def Takes (m m' : Mem) : Prop :=
  ∀ f, m'.memMap f = m.memMap f ∨ m.memMap f = UNUSED ∧ m'.memMap f = 1

theorem takes_of_update {i : Nat} (hun : m.memMap i = UNUSED)
    (hm : m'.memMap = Function.update m.memMap i 1) : Takes m m' := by
  intro f
  rw [hm, Function.update_apply]
  split_ifs with hfi
  · exact .inr ⟨hfi ▸ hun, rfl⟩
  · exact .inl rfl

theorem HasTable.takes (hT : HasTable d m m') : Takes m m' := by
  cases hT with
  | here _ => exact fun _ => .inl rfl
  | made _ hf _ => exact takes_of_update (firstFree_some hf).2.1 (addTable_memMap ..)

theorem HasTable.frameOf (hT : HasTable d m m') (h : Window hi m) {n f : Nat} (hn : n < 1048576)
    (hf : m'.frameOf n = some f) : m.frameOf n = some f ∨ m'.memMap f = 1 := by
  cases hT with
  | here _ => exact .inl hf
  | @made i habs hi' hcov =>
      obtain ⟨hlt, hun, -⟩ := firstFree_some hi'
      rw [h.addTable_frameOf hun hlt hcov habs hn] at hf
      split_ifs at hf
      · obtain rfl := Option.some.inj hf
        rw [addTable_memMap]
        exact .inr (Function.update_self ..)
      · exact .inl hf

theorem HasTable.frame_kept (hT : HasTable d m m') (h : Window hi m) {n f : Nat} (hn : n < 1048576)
    (hf : m.frameOf n = some f) : m'.frameOf n = some f := by
  cases hT with
  | here _ => exact hf
  | @made i habs hi' hcov =>
      obtain ⟨hlt, hun, -⟩ := firstFree_some hi'
      rw [h.addTable_frameOf hun hlt hcov habs hn]
      split_ifs with hni
      · rw [hni] at hf
        rw [h.identity i hlt f hf]
      · exact hf

/-- No counter of 255 comes about. -/
theorem HasTable.ne_255 (hT : HasTable d m m') {f : Nat} (hf : m.memMap f ≠ 255) :
    m'.memMap f ≠ 255 := by
  rcases hT.takes f with e | ⟨-, e⟩
  · rwa [e]
  · rw [e]
    decide

theorem HasTable.countable {b : Word} (hT : HasTable d m m') (h : Window hi m)
    (hc : m.Countable b) : m'.Countable b := by
  rintro f (hf | hf)
  · rcases hT.frameOf h (mapNr_lt b) hf with hf | e
    · exact hT.ne_255 (hc f (.inl hf))
    · rw [e]
      decide
  · exact hT.ne_255 (hc f (.inr hf))

theorem Handled.countable (hH : Handled a m m') (h : Window hi m) (hc : m.Countable a) :
    m'.Countable a := by
  cases hH with
  | window hT ha =>
      intro f hf
      have h₁ := hT.window h (block_lt a)
      refine hT.countable h hc f (.inr ⟨ha, ?_⟩)
      rcases hf with hf | ⟨-, rfl⟩
      · exact (h₁.mapSelf ((lt_window a).mp ha) (hT.table h)).identity _ ((lt_window a).mp ha) f hf
      · rfl
  | noFrame hT _ _ => exact hT.countable h hc
  | @page m₁ i hT ha hf hcov =>
      have h₁ := hT.window h (block_lt a)
      rintro f (hf' | ⟨hlow, -⟩)
      · rw [h₁.addPage_frameOf hf hcov (mapNr_lt a) (hT.table h)] at hf'
        obtain rfl := Option.some.inj hf'
        rw [Mem.addPage, putPte_memMap, grab_memMap, Function.update_self]
        decide
      · exact absurd hlow ha

/-- The two loops of `share_page` for the page `from`. -/
theorem needFromTable_loop {P : Mem → Prop}
    (hstep : ∀ m k m', P m → doNoPage k m a = some m' → P m')
    (h : P m) (hr : needFromTable k m a = some m') :
    P m' ∧ m'.tableOf (mapNr a / 1024) ≠ none := by
  induction k generalizing m with
  | zero =>
      rw [needFromTable] at hr
      cases hr
  | succ k ih =>
      rw [needFromTable, present_tableEntry] at hr
      split_ifs at hr with ht
      · cases hr
        exact ⟨h, fun e => by simp [e] at ht⟩
      · obtain ⟨m₁, hm₁, hrest⟩ := Option.bind_eq_some_iff.mp hr
        exact ih (hstep _ _ _ h hm₁) hrest

theorem needFromPage_loop {P : Mem → Prop}
    (hstep : ∀ m k m', P m → doNoPage k m a = some m' → P m')
    (h : P m) (hr : needFromPage k m a = some m') :
    P m' ∧ present (m'.pageEntry a) = true := by
  induction k generalizing m with
  | zero =>
      rw [needFromPage] at hr
      cases hr
  | succ k ih =>
      rw [needFromPage] at hr
      split_ifs at hr with hp
      · cases hr
        exact ⟨h, hp⟩
      · obtain ⟨m₁, hm₁, hrest⟩ := Option.bind_eq_some_iff.mp hr
        exact ih (hstep _ _ _ h hm₁) hrest

/-- The page tables that there are stay where they are. -/
theorem HasTable.dir (hT : HasTable d m m') (h : Window hi m) {e : Nat} (he : m.tableOf e ≠ none) :
    m'.phys 7 e = m.phys 7 e := by
  cases hT with
  | here _ => rfl
  | @made i habs hf hcov =>
      obtain ⟨hlt, hun, -⟩ := firstFree_some hf
      have hed : e ≠ d := fun hed => he (hed ▸ habs)
      rw [Mem.addTable, put_phys, Function.update_of_ne hed, h.grab_dir hun hlt hcov]

theorem Handled.table (hH : Handled a m m') (h : Window hi m) :
    m'.tableOf (mapNr a / 1024) ≠ none := by
  cases hH with
  | window hT _ =>
      have h₁ := hT.window h (block_lt a)
      obtain ⟨t, ht⟩ := Option.ne_none_iff_exists'.mp (hT.table h)
      rw [Mem.mapSelf, h₁.tables.tableOf_putPte (mapNr_lt a) ht]
      exact hT.table h
  | noFrame hT _ _ => exact hT.table h
  | page hT _ hf hcov =>
      have h₁ := hT.window h (block_lt a)
      obtain ⟨hlt, hun, -⟩ := firstFree_some hf
      obtain ⟨t, ht⟩ := Option.ne_none_iff_exists'.mp (hT.table h)
      have hgT := h₁.grab_tableOf hun hlt hcov
      rw [Mem.addPage, (h₁.grab hun hlt hcov).tables.tableOf_putPte (mapNr_lt a) (hgT.symm ▸ ht),
        hgT]
      exact hT.table h

theorem Window.needFromTable_window (h : Window hi m) (hr : needFromTable k m a = some m') :
    Window hi m' :=
  (needFromTable_loop (P := Window hi) (fun _ _ _ h hr => (h.doNoPage_result hr).window_kept h)
    h hr).1

theorem Window.needFromPage_window (h : Window hi m) (hr : needFromPage k m a = some m') :
    Window hi m' :=
  (needFromPage_loop (P := Window hi) (fun _ _ _ h hr => (h.doNoPage_result hr).window_kept h)
    h hr).1

/-- What the loops leave. -/
theorem Window.needFrom_result (h : Window hi m) (hc : m.Countable a) {k' : Nat} {m₁ m₂ : Mem}
    (hr₁ : needFromTable k m a = some m₁) (hr₂ : needFromPage k' m₁ a = some m₂) :
    Window hi m₂ ∧ ∃ f, m₂.frameOf (mapNr a) = some f ∧ m₂.memMap f ≠ 255 := by
  obtain ⟨⟨h₁, hc₁⟩, ht₁⟩ := needFromTable_loop (P := fun m => Window hi m ∧ m.Countable a)
    (fun m k m' hP hr => by
      have hH := hP.1.doNoPage_result hr
      exact ⟨hH.window_kept hP.1, hH.countable hP.1 hP.2⟩) ⟨h, hc⟩ hr₁
  obtain ⟨⟨h₂, hc₂, ht₂⟩, hp⟩ := needFromPage_loop
    (P := fun m => Window hi m ∧ m.Countable a ∧ m.tableOf (mapNr a / 1024) ≠ none)
    (fun m k m' hP hr => by
      have hH := hP.1.doNoPage_result hr
      exact ⟨hH.window_kept hP.1, hH.countable hP.1 hP.2.1, hH.table hP.1⟩) ⟨h₁, hc₁, ht₁⟩ hr₂
  refine ⟨h₂, ?_⟩
  have hboth : (m₂.frameOf (mapNr a)).isSome = true := by
    rw [← present_entries, present_tableEntry, hp, Bool.and_true]
    exact Option.isSome_iff_ne_none.mpr ht₂
  obtain ⟨f, hf⟩ := Option.isSome_iff_exists.mp hboth
  exact ⟨f, hf, hc₂ f (.inl hf)⟩

/-- The end of `share_page` for a page of a process. -/
theorem Window.link (h : Window hi m) {n c f : Nat} (hn : n < 1048576) (hc : c < 1048576)
    (hge : 16384 ≤ c) (hf : m.frameOf n = some f) (ht : m.tableOf (c / 1024) ≠ none)
    (hcount : m.memMap f ≠ 255) : Window hi (m.link n c f) := by
  obtain ⟨hfp, hfc⟩ := h.page n hn f hf
  have hset : Window hi (m.setMap f (m.memMap f + 1)) :=
    h.setMap (fun _ => add_one_ne_unused hcount) hfc
  have hv : entryFrame (m.pte n &&& ~~~2) = some f := by
    rw [entryFrame_readOnly]
    exact hf
  exact hset.putPte hc ht hv (fun hlow => absurd hlow (by omega)) hfp hfc

theorem Window.link_tableOf (h : Window hi m) {n c f : Nat} (hc : c < 1048576)
    (ht : m.tableOf (c / 1024) ≠ none) : (m.link n c f).tableOf = m.tableOf := by
  obtain ⟨t, ht⟩ := Option.ne_none_iff_exists'.mp ht
  exact h.tables.tableOf_link hc ht

theorem Window.share (h : Window hi m) {n c f : Nat} (hn : n < 1048576) (hge : 16384 ≤ n)
    (hc : c < 1048576) (hge' : 16384 ≤ c) (hf : m.frameOf n = some f)
    (ht : m.tableOf (c / 1024) ≠ none) (hcount : m.memMap f ≠ 255) :
    Window hi (m.share n c f) := by
  have hT := h.link_tableOf (n := n) (f := f) hc ht
  obtain ⟨hfp, hfc⟩ := h.page n hn f hf
  have hv : entryFrame (m.pte n &&& ~~~2) = some f := by
    rw [entryFrame_readOnly]
    exact hf
  refine (h.link hn hc hge' hf ht hcount).putPte hn ?_ hv (fun hlow => absurd hlow (by omega)) hfp ?_
  · rw [hT]
    exact covered_of_frameOf hf
  · rw [covered_congr hT]
    exact hfc

/-- What `share_page` does when its loops have ended. -/
theorem Window.sharePage_result {b : Word} (h : Window hi m) (hr : sharePage k m a b = some m') :
    ∃ m₁ m₂ m₃, needFromTable k m a = some m₁ ∧ needFromPage k m₁ a = some m₂ ∧
      HasTable (mapNr b / 1024) m₂ m₃ ∧ ∀ f, m₂.frameOf (mapNr a) = some f →
        m₃.frameOf (mapNr a) = some f ∧ m' = if a ≥ WINDOW then m₃.share (mapNr a) (mapNr b) f
          else m₃.link (mapNr a) (mapNr b) f := by
  rw [sharePage] at hr
  obtain ⟨m₁, hr₁, hr⟩ := Option.bind_eq_some_iff.mp hr
  obtain ⟨m₂, hr₂, hr⟩ := Option.bind_eq_some_iff.mp hr
  obtain ⟨m₃, hr₃, he⟩ := Option.map_eq_some_iff.mp hr
  have h₂ := (h.needFromTable_window hr₁).needFromPage_window hr₂
  have hT := h₂.needTable_result hr₃
  have h₃ := hT.window h₂ (block_lt b)
  refine ⟨m₁, m₂, m₃, hr₁, hr₂, hT, fun f hf => ?_⟩
  obtain ⟨t, ht⟩ := tableOf_of_frameOf hf
  have hdir : m₃.phys 7 (mapNr a / 1024) = m₂.phys 7 (mapNr a / 1024) :=
    hT.dir h₂ (by rw [ht]; exact Option.some_ne_none t)
  have hentry : m₂.tableEntry a = m₃.tableEntry a := by rw [tableEntry_eq, tableEntry_eq, hdir]
  have ht₃ : m₃.tableOf (mapNr a / 1024) = some t := by
    rw [tableOf, hdir]
    exact ht
  -- the page keeps its frame while the page table for `to` is made
  have hf₃ := hT.frame_kept h₂ (mapNr_lt a) hf
  have hnr : mapNr (m₃.pte (mapNr a)) = f := (entryFrame_some hf₃).2
  obtain ⟨tb, htb⟩ := Option.ne_none_iff_exists'.mp (hT.table h₂)
  have htodir : m₃.phys 7 = (m₃.link (mapNr a) (mapNr b) f).phys 7 :=
    ((h₃.tables.setMap f _).dir_putPte (mapNr_lt b) htb _).symm
  simp only [hentry, load_pagePtr ht₃, hnr] at he
  rw [store_pagePtr (m₃.setMap f _) m₃ b _ rfl] at he
  refine ⟨hf₃, he.symm.trans ?_⟩
  split_ifs
  · exact store_pagePtr _ m₃ a _ htodir
  · rfl

/-- `share_page` with a page of a process. -/
theorem Window.sharePage_window {b : Word} (h : Window hi m) (hb : ¬ b < WINDOW)
    (hc : m.Countable a) (hr : sharePage k m a b = some m') : Window hi m' := by
  obtain ⟨m₁, m₂, m₃, hr₁, hr₂, hT, hend⟩ := h.sharePage_result hr
  obtain ⟨h₂, f, hf, hcf⟩ := h.needFrom_result hc hr₁ hr₂
  obtain ⟨hf₃, he⟩ := hend f hf
  have h₃ := hT.window h₂ (block_lt b)
  rw [he]
  split_ifs with ha
  · exact h₃.share (mapNr_lt a) (window_le (BitVec.not_lt.mpr ha)) (mapNr_lt b) (window_le hb) hf₃
      (hT.table h₂) (hT.ne_255 hcf)
  · exact h₃.link (mapNr_lt a) (mapNr_lt b) (window_le hb) hf₃ (hT.table h₂) (hT.ne_255 hcf)

end

end Mks.Mem
