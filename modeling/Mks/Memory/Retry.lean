import Mks.Memory.Recursion
import Mks.Memory.Sharing
import Mks.Memory.Stock

set_option autoImplicit false

/-! # The retry loops of `do_no_page` and `share_page`

`do_no_page` repeats `create_page_table`, and `share_page` repeats `do_no_page` and
`create_page_table`, until an entry is present. None of the loops looks at the result of the call, so
they do not end when the memory has run out. Whether they do is a matter of the free frames and of
the blocks with page tables: `calls_return`.
-/

namespace Mks.Mem

variable {m m' m₁ m₂ : Mem} {a b : Word} {d i k : Nat}

/-! ## A frame for a loop -/

/-- A loop that waits for a frame gets frame `i`. Frame 0 counts as a failure and is gone. -/
inductive Obtains (m : Mem) (i : Nat) (m' : Mem) : Prop
  | now {js : List Nat} (ha : Allocates m i js m') (hi : i ≠ 0)
  | later {m₀ : Mem} {js : List Nat} (h0 : Allocates m 0 [] m₀) (ha : Allocates m₀ i js m')

/-- What the loop finds then. -/
structure Obtained (m : Mem) (i : Nat) (m' : Mem) : Prop where
  regular : Regular m'
  lt : i < PAGING_PAGES
  ne_zero : i ≠ 0
  free : m.memMap i = UNUSED
  count : m'.memMap i = 1
  unlinked : Unlinked m' i
  cleared : m'.phys i = zeroFrame
  dir_kept : ∀ e, m.tableOf e ≠ none → m'.phys 7 e = m.phys 7 e
  pte_process : ∀ n < 1048576, 16384 ≤ n → m'.pte n = m.pte n

theorem Allocates.obtained {js : List Nat} (ha : Allocates m i js m') (h : Regular m)
    (hi : i ≠ 0) : Obtained m i m' := by
  have hA := h.allocated ha
  obtain ⟨hlt, hun⟩ := hA.free i (List.mem_cons_self ..)
  constructor
  case regular => exact hA.regular h
  case lt => exact hlt
  case ne_zero => exact hi
  case free => exact hun
  case count => rw [hA.memMap, if_pos (List.mem_cons_self ..)]
  case unlinked => exact hA.unlinked (h.unlinked i hlt hun) (List.nodup_cons.mp hA.nodup).1
  case cleared => exact hA.cleared
  case dir_kept => exact fun _ => hA.dir_kept
  case pte_process => exact fun _ => hA.pte_process

/-- Frame 0 is never spare, so that no page table is made. -/
theorem Allocates.first {js : List Nat} (h0 : Allocates m 0 js m') :
    js = [] ∧ m.Covered 0 ∧ m' = m.grab 0 := by
  cases h0 with
  | covered _ hcov => exact ⟨rfl, hcov, rfl⟩
  | table _ _ hmod _ => exact absurd hmod (by decide)

/-- It is given away once. -/
theorem Allocates.ne_zero {m₀ : Mem} {js : List Nat} (h0 : Allocates m 0 [] m₀)
    (ha : Allocates m₀ i js m') : i ≠ 0 := by
  rintro rfl
  obtain ⟨-, -, rfl⟩ := h0.first
  have hun := (firstFree_some ha.firstFree).2.1
  rw [grab_memMap, Function.update_self] at hun
  cases hun

theorem Allocates.first_tableOf {m₀ : Mem} (h0 : Allocates m 0 [] m₀) (h : Regular m) :
    m₀.tableOf = m.tableOf := by
  obtain ⟨-, hcov, rfl⟩ := h0.first
  obtain ⟨hlt, hun, -⟩ := firstFree_some h0.firstFree
  exact (h.unlinked 0 hlt hun).grab_tableOf h.tables hlt hcov

theorem Obtains.obtained (ho : Obtains m i m') (h : Regular m) : Obtained m i m' := by
  cases ho with
  | now ha hi => exact ha.obtained h hi
  | @later m₀ js h0 ha =>
      have hA₀ := h.allocated h0
      have hob := ha.obtained (hA₀.regular h) (h0.ne_zero ha)
      refine { hob with free := (hA₀.unused hob.free).2, dir_kept := ?_, pte_process := ?_ }
      · intro e he
        have he₀ : m₀.tableOf e ≠ none := by rwa [h0.first_tableOf h]
        exact (hob.dir_kept e he₀).trans (hA₀.dir_kept he)
      · exact fun n hn hge => (hob.pte_process n hn hge).trans (hA₀.pte_process hn hge)

/-- The loop goes on without frame 0. -/
theorem Obtains.after {m₀ : Mem} (ho : Obtains m₀ i m') (h0 : Allocates m 0 [] m₀) :
    Obtains m i m' := by
  cases ho with
  | now ha _ => exact .later h0 ha
  | later h0' _ => exact absurd rfl (h0.ne_zero h0')

/-- The frames that are left. -/
theorem Obtains.stock (ho : Obtains m i m') (h : Regular m) : m'.stock = m.stock.lose.take := by
  cases ho with
  | now ha hi =>
      have hne : m.stock.free.head? ≠ some 0 := by
        rw [stock_head, ha.firstFree]
        exact fun e => hi (Option.some.inj e)
      rw [ha.stock h, Stock.lose_of_ne hne]
  | later h0 ha =>
      have hz : m.stock.free.head? = some 0 := stock_head.trans h0.firstFree
      rw [ha.stock ((h.allocated h0).regular h), h0.stock h, Stock.lose, if_pos hz]

theorem Regular.obtains_iff (h : Regular m) : (∃ i m', Obtains m i m') ↔ m.stock.Ready := by
  unfold Stock.Ready
  by_cases hz : m.stock.free.head? = some 0
  · have hf : m.firstFree = some 0 := stock_head.symm.trans hz
    have hcov : m.stock.table 0 = true ↔ m.Covered 0 := stock_covered 0
    have hlose : ∀ {m₀}, Allocates m 0 [] m₀ → m₀.stock = m.stock.lose := fun h0 => by
      rw [h0.stock h, Stock.lose, if_pos hz]
    constructor
    · rintro ⟨i, m', ⟨ha, hi⟩ | ⟨h0, ha⟩⟩
      · rw [ha.firstFree] at hf
        exact absurd (Option.some.inj hf) hi
      · refine ⟨fun _ => hcov.mpr h0.first.2.1, ?_⟩
        rw [← hlose h0]
        exact ha.yields ((h.allocated h0).regular h)
    · rintro ⟨ht, hy⟩
      have h0 := Allocates.covered hf (hcov.mp (ht hz))
      rw [← hlose h0] at hy
      obtain ⟨i, js, m', ha⟩ := ((h.allocated h0).regular h).allocates_iff.mpr hy
      exact ⟨i, m', .later h0 ha⟩
  · rw [Stock.lose_of_ne hz, ← h.allocates_iff]
    constructor
    · rintro ⟨i, m', ⟨ha, -⟩ | ⟨h0, -⟩⟩
      · exact ⟨fun hz' => absurd hz' hz, i, _, m', ha⟩
      · exact absurd (stock_head.trans h0.firstFree) hz
    · rintro ⟨-, i, js, m', ha⟩
      refine ⟨i, m', .now ha fun e => hz ?_⟩
      rw [stock_head, ha.firstFree, e]

/-! ## The page table -/

/-- There is a page table for block `d`, if need be a new one. -/
inductive TableMade (d : Nat) (m : Mem) : Mem → Prop
  | here (ht : m.tableOf d ≠ none) : TableMade d m m
  | made {m₁ : Mem} {i : Nat} (habs : m.tableOf d = none) (ho : Obtains m i m₁) :
      TableMade d m (m₁.setTable d i)

/-- In a well-formed window a page table takes one frame. -/
theorem HasTable.tableMade {hi : Nat} (hT : HasTable d m m') (h : Window hi m) :
    TableMade d m m' := by
  cases hT with
  | here ht => exact .here ht
  | made habs hf hcov =>
      obtain ⟨hlt, hun, -⟩ := firstFree_some hf
      have hne := (h.frame_ne_zero hun hlt).1
      exact .made habs (.now (.covered hf hcov) (by omega))

theorem TableMade.eq_of_table (hT : TableMade d m m') (ht : m.tableOf d ≠ none) : m' = m := by
  cases hT with
  | here _ => rfl
  | made habs _ => exact absurd habs ht

theorem TableMade.table (hT : TableMade d m m') (h : Regular m) : m'.tableOf d ≠ none := by
  cases hT with
  | here ht => exact ht
  | @made m₁ i habs ho =>
      rw [setTable_tableOf (ho.obtained h).lt, Function.update_self]
      exact Option.some_ne_none i

theorem TableMade.regular (hT : TableMade d m m') (h : Regular m) : Regular m' := by
  cases hT with
  | here _ => exact h
  | made habs ho =>
      have hob := ho.obtained h
      exact hob.regular.setTable hob.unlinked hob.lt hob.cleared (by rw [hob.count]; decide) d

/-- The page tables that there are stay where they are. -/
theorem TableMade.dir_kept (hT : TableMade d m m') (h : Regular m) {e : Nat}
    (he : m.tableOf e ≠ none) : m'.phys 7 e = m.phys 7 e := by
  cases hT with
  | here _ => rfl
  | made habs ho =>
      have hed : e ≠ d := fun hed => he (hed ▸ habs)
      rw [setTable_dir, Function.update_of_ne hed]
      exact (ho.obtained h).dir_kept e he

/-- A page table is made without a change to the pages of processes. -/
theorem TableMade.pte_process (hT : TableMade d m m') (h : Regular m) {n : Nat}
    (hn : n < 1048576) (hge : 16384 ≤ n) : m'.pte n = m.pte n := by
  cases hT with
  | here _ => rfl
  | made habs ho =>
      have hob := ho.obtained h
      refine (hob.regular.tables.setTable_pte hob.unlinked hob.lt hob.cleared d hn).trans ?_
      split_ifs with hd
      · rw [pte_none (hd ▸ habs)]
      · exact hob.pte_process n hn hge

theorem TableMade.stock (hT : TableMade d m m') (h : Regular m) :
    m'.stock = m.stock.getTable d := by
  unfold Stock.getTable
  cases hT with
  | here ht => rw [if_pos (stock_table.mpr ht)]
  | made habs ho =>
      rw [if_neg fun ht => stock_table.mp ht habs, setTable_stock (ho.obtained h).lt, ho.stock h]

theorem Regular.tableMade_iff (h : Regular m) :
    (∃ m', TableMade d m m') ↔ m.stock.HasTable d := by
  unfold Stock.HasTable
  rw [stock_table, ← h.obtains_iff]
  constructor
  · rintro ⟨m', ht | ⟨-, ho⟩⟩
    · exact .inl ht
    · exact .inr ⟨_, _, ho⟩
  · intro hor
    by_cases ht : m.tableOf d = none
    · obtain ⟨i, m', ho⟩ := hor.resolve_left (not_not.mpr ht)
      exact ⟨_, .made ht ho⟩
    · exact ⟨m, .here ht⟩

/-! ### The loop -/

/-- One round of the loop. -/
theorem Regular.createPageTable_gives (h : Regular m) (habs : m.tableOf (mapNr a / 1024) = none)
    {r : Int} (hr : createPageTable k m a = some (r, m')) : ∃ p m₁, Gives m p m₁ ∧
      m' = if p = 0 then m₁ else m₁.put 7 (mapNr a / 1024) (p ||| 7) := by
  cases k with
  | zero =>
      rw [createPageTable] at hr
      cases hr
  | succ k =>
      have hget : ∃ p m₁, getFreePage k m = some (p, m₁) := by
        rw [createPageTable, tableEntry_absent habs, if_neg (by decide)] at hr
        obtain ⟨⟨p, m₁⟩, hp, -⟩ := Option.map_eq_some_iff.mp hr
        exact ⟨p, m₁, hp⟩
      obtain ⟨p, m₁, hp⟩ := hget
      rw [createPageTable_absent habs hp] at hr
      refine ⟨p, m₁, h.getFreePage_iff.mp ⟨k, hp⟩, ?_⟩
      split_ifs at hr ⊢
      · exact (congrArg Prod.snd (Option.some.inj hr)).symm
      · exact (congrArg Prod.snd (Option.some.inj hr)).symm

theorem Regular.needTable_step (h : Regular m) (habs : m.tableOf (mapNr a / 1024) = none)
    {p : Word} (hg : Gives m p m₁)
    (hn : ∃ k, needTable k (if p = 0 then m₁ else m₁.put 7 (mapNr a / 1024) (p ||| 7)) a = some m') :
    ∃ k, needTable k m a = some m' := by
  obtain ⟨k, hk⟩ := h.getFreePage_iff.mpr hg
  obtain ⟨k', hk'⟩ := hn
  -- one bound for the call and the rest of the loop
  refine ⟨k + k' + 1 + 1, ?_⟩
  rw [needTable, tableEntry_absent habs, if_neg (by decide),
    createPageTable_absent habs (getFreePage_mono hk (Nat.le_add_right k k')), Option.bind_some]
  split_ifs at hk' ⊢
  · exact needTable_mono hk' (by omega)
  · exact needTable_mono hk' (by omega)

theorem needTable_here (ht : m.tableOf (mapNr a / 1024) ≠ none) (k : Nat) :
    needTable (k + 1) m a = some m := by
  obtain ⟨t, ht⟩ := Option.ne_none_iff_exists'.mp ht
  rw [needTable, tableEntry_present ht, if_pos rfl]

/-- The loop ends with the new page table. -/
theorem needTable_setTable (hi : i < PAGING_PAGES) (m₁ : Mem) (a : Word) :
    ∃ k, needTable k (m₁.setTable (mapNr a / 1024) i) a
      = some (m₁.setTable (mapNr a / 1024) i) := by
  refine ⟨1, needTable_here ?_ 0⟩
  rw [setTable_tableOf hi, Function.update_self]
  exact Option.some_ne_none i

theorem Regular.needTable_iff (h : Regular m) :
    (∃ k, needTable k m a = some m') ↔ TableMade (mapNr a / 1024) m m' := by
  constructor
  · rintro ⟨k, hr⟩
    -- on the number of rounds
    induction k generalizing m with
    | zero =>
        rw [needTable] at hr
        cases hr
    | succ k ih =>
        by_cases ht : m.tableOf (mapNr a / 1024) = none
        · rw [needTable, tableEntry_absent ht, if_neg (by decide)] at hr
          obtain ⟨⟨r, m₁⟩, hc, hrest⟩ := Option.bind_eq_some_iff.mp hr
          obtain ⟨p, m₂, hg, rfl⟩ := h.createPageTable_gives ht hc
          cases hg with
          | noFrame _ => exact ih h hrest
          | @frame m₂ i js ha =>
              have hA := h.allocated ha
              have hlt := (hA.free i (List.mem_cons_self ..)).1
              by_cases hi : i = 0
              · -- frame 0 is gone
                subst hi
                obtain ⟨rfl, -⟩ := ha.first
                cases ih (hA.regular h) hrest with
                | here ht' => exact absurd ((congrFun (ha.first_tableOf h) _).trans ht) ht'
                | made _ ho => exact .made ht (ho.after ha)
              · rw [if_neg ((frameAddr_eq_zero hlt).not.mpr hi)] at hrest
                obtain ⟨k', hk'⟩ := needTable_setTable hlt m₂ a
                have hdet := (needTable_mono hrest (Nat.le_add_right k k')).symm.trans
                  (needTable_mono hk' (Nat.le_add_left k' k))
                rw [Option.some.inj hdet]
                exact .made ht (.now ha hi)
        · rw [needTable_here ht] at hr
          cases hr
          exact .here ht
  · rintro (ht | ⟨habs, ⟨ha, hi⟩ | ⟨h0, ha⟩⟩)
    · exact ⟨1, needTable_here ht 0⟩
    · have hlt := ((h.allocated ha).free _ (List.mem_cons_self ..)).1
      refine h.needTable_step habs (.frame ha) ?_
      rw [if_neg ((frameAddr_eq_zero hlt).not.mpr hi)]
      exact needTable_setTable hlt _ a
    · have h₀ := (h.allocated h0).regular h
      have hlt := ((h₀.allocated ha).free _ (List.mem_cons_self ..)).1
      refine h.needTable_step habs (.frame h0) ?_
      rw [if_pos (show frameAddr 0 = 0 from rfl)]
      refine h₀.needTable_step ((congrFun (h0.first_tableOf h) _).trans habs) (.frame ha) ?_
      rw [if_neg ((frameAddr_eq_zero hlt).not.mpr (h0.ne_zero ha))]
      exact needTable_setTable hlt _ a

/-! ## `do_no_page` -/

/-- What `do_no_page` does when it returns. -/
inductive FaultDone (a : Word) (m : Mem) : Mem → Prop
  | window {m₁ : Mem} (hT : TableMade (mapNr a / 1024) m m₁) (ha : a < WINDOW) :
      FaultDone a m (m₁.mapSelf a)
  | noFrame {m₁ m₂ : Mem} (hT : TableMade (mapNr a / 1024) m m₁) (ha : ¬ a < WINDOW)
      (hg : Gives m₁ 0 m₂) : FaultDone a m m₂
  | page {m₁ m₂ : Mem} {i : Nat} {js : List Nat} (hT : TableMade (mapNr a / 1024) m m₁)
      (ha : ¬ a < WINDOW) (hA : Allocates m₁ i js m₂) (hi : i ≠ 0) :
      FaultDone a m (m₂.putPte (mapNr a) (frameAddr i ||| 7))

/-- The frames that `do_no_page` takes are not the page table of the page itself. -/
theorem Allocates.store_pagePtr {js : List Nat} (hA : Allocates m i js m') (h : Regular m)
    (ht : m.tableOf (mapNr a / 1024) ≠ none) (v : Word) :
    m'.store (pagePtr (m.tableEntry a) a) v = m'.putPte (mapNr a) v :=
  store_pagePtr_entry m' m a v ((h.allocated hA).dir_kept ht).symm

theorem Regular.doNoPage_iff (h : Regular m) :
    (∃ k, doNoPage k m a = some m') ↔ FaultDone a m m' := by
  constructor
  · rintro ⟨k, hr⟩
    cases k with
    | zero =>
        rw [doNoPage] at hr
        cases hr
    | succ k =>
        rw [doNoPage] at hr
        obtain ⟨m₁, hm₁, hrest⟩ := Option.bind_eq_some_iff.mp hr
        have hT := h.needTable_iff.mp ⟨k, hm₁⟩
        have h₁ := hT.regular h
        dsimp only at hrest
        split_ifs at hrest with ha
        · cases hrest
          rw [store_pagePtr _ _ _ _ rfl]
          exact .window hT ha
        · obtain ⟨⟨p, m₂⟩, hp, he⟩ := Option.map_eq_some_iff.mp hrest
          cases h₁.getFreePage_iff.mp ⟨k, hp⟩ with
          | noFrame hn =>
              cases he
              exact .noFrame hT ha (.noFrame hn)
          | @frame m₂ i js hA =>
              have hlt := ((h₁.allocated hA).free i (List.mem_cons_self ..)).1
              by_cases hi : i = 0
              · subst hi
                cases he
                exact .noFrame hT ha (.frame hA)
              · simp only [if_neg ((frameAddr_eq_zero hlt).not.mpr hi)] at he
                rw [← he, hA.store_pagePtr h₁ (hT.table h)]
                exact .page hT ha hA hi
  · intro hF
    cases hF with
    | window hT ha =>
        obtain ⟨k, hk⟩ := h.needTable_iff.mpr hT
        refine ⟨k + 1, ?_⟩
        rw [doNoPage, hk, Option.bind_some, if_pos ha, store_pagePtr _ _ _ _ rfl]
        rfl
    | @noFrame m₁ m₂ hT ha hg =>
        obtain ⟨k, hk⟩ := h.needTable_iff.mpr hT
        obtain ⟨k', hk'⟩ := (hT.regular h).getFreePage_iff.mpr hg
        refine ⟨k + k' + 1, ?_⟩
        rw [doNoPage, needTable_mono hk (by omega), Option.bind_some, if_neg ha,
          getFreePage_mono hk' (by omega)]
        rfl
    | @page m₁ m₂ i js hT ha hA hi =>
        have h₁ := hT.regular h
        have hlt := ((h₁.allocated hA).free i (List.mem_cons_self ..)).1
        obtain ⟨k, hk⟩ := h.needTable_iff.mpr hT
        obtain ⟨k', hk'⟩ := h₁.getFreePage_iff.mpr (.frame hA)
        refine ⟨k + k' + 1, ?_⟩
        rw [doNoPage, needTable_mono hk (by omega), Option.bind_some, if_neg ha,
          getFreePage_mono hk' (by omega), Option.map_some]
        simp only [if_neg ((frameAddr_eq_zero hlt).not.mpr hi)]
        rw [hA.store_pagePtr h₁ (hT.table h)]

/-- **`do_no_page` returns** when there is a page table or a frame for one, and `get_free_page`
returns then, if it is called for the page. -/
theorem Regular.doNoPage_returns (h : Regular m) : (∃ k m', doNoPage k m a = some m') ↔
    m.stock.HasTable (mapNr a / 1024) ∧
      (a < WINDOW ∨ (m.stock.getTable (mapNr a / 1024)).Ends) := by
  rw [← h.tableMade_iff]
  constructor
  · rintro ⟨k, m', hr⟩
    cases h.doNoPage_iff.mp ⟨k, hr⟩ with
    | window hT ha => exact ⟨⟨_, hT⟩, .inl ha⟩
    | noFrame hT _ hg =>
        refine ⟨⟨_, hT⟩, .inr ?_⟩
        rw [← hT.stock h]
        exact (hT.regular h).gives_iff.mp ⟨_, _, hg⟩
    | page hT _ hA _ =>
        refine ⟨⟨_, hT⟩, .inr ?_⟩
        rw [← hT.stock h]
        exact (hT.regular h).gives_iff.mp ⟨_, _, .frame hA⟩
  · rintro ⟨⟨m₁, hT⟩, hpage⟩
    have hF : ∃ m', FaultDone a m m' := by
      by_cases ha : a < WINDOW
      · exact ⟨_, .window hT ha⟩
      · have hE := hpage.resolve_left ha
        rw [← hT.stock h] at hE
        obtain ⟨p, m₂, hg⟩ := (hT.regular h).gives_iff.mpr hE
        cases hg with
        | noFrame hn => exact ⟨_, .noFrame hT ha (.noFrame hn)⟩
        | @frame m₂ i js hA =>
            by_cases hi : i = 0
            · subst hi
              exact ⟨_, .noFrame hT ha (.frame hA)⟩
            · exact ⟨_, .page hT ha hA hi⟩
    obtain ⟨m', hF⟩ := hF
    obtain ⟨k, hk⟩ := h.doNoPage_iff.mpr hF
    exact ⟨k, m', hk⟩

/-! ## The page `from` of `share_page` -/

/-- The page is mapped, if need be to its own frame or to a new one. -/
inductive FromReady (a : Word) (m : Mem) : Mem → Prop
  | here (hf : m.frameOf (mapNr a) ≠ none) : FromReady a m m
  | window {m₁ : Mem} (habs : m.frameOf (mapNr a) = none)
      (hT : TableMade (mapNr a / 1024) m m₁) (ha : a < WINDOW) : FromReady a m (m₁.mapSelf a)
  | page {m₁ m₂ : Mem} {i : Nat} (habs : m.frameOf (mapNr a) = none)
      (hT : TableMade (mapNr a / 1024) m m₁) (ha : ¬ a < WINDOW) (ho : Obtains m₁ i m₂) :
      FromReady a m (m₂.putPte (mapNr a) (frameAddr i ||| 7))

theorem Obtained.table (hob : Obtained m i m') (ht : m.tableOf d ≠ none) :
    m'.tableOf d ≠ none := by
  rwa [tableOf, hob.dir_kept d ht]

/-- A page of a process gets a new frame. -/
theorem Obtained.page (hob : Obtained m i m') (ha : ¬ a < WINDOW)
    (ht : m.tableOf (mapNr a / 1024) ≠ none) :
    Regular (m'.putPte (mapNr a) (frameAddr i ||| 7)) ∧
      (m'.putPte (mapNr a) (frameAddr i ||| 7)).tableOf = m'.tableOf ∧
      (m'.putPte (mapNr a) (frameAddr i ||| 7)).frameOf (mapNr a) = some i := by
  have hge := window_le ha
  have ht' := hob.table ht
  refine ⟨hob.regular.putPte (mapNr_lt a) ht' fun hlt => ?_, ?_⟩
  · unfold PAGING_PAGES at hlt
    omega
  · obtain ⟨t, ht'⟩ := Option.ne_none_iff_exists'.mp ht'
    have hT := hob.regular.tables
    refine ⟨hT.tableOf_putPte (mapNr_lt a) ht' _, ?_⟩
    rw [hT.frameOf_putPte (mapNr_lt a) ht' _ (mapNr_lt a), if_pos rfl,
      entryFrame_frameAddr (lt_frames hob.lt)]

/-- A page of the window gets its own frame. -/
theorem Regular.mapSelf (h : Regular m) (ht : m.tableOf (mapNr a / 1024) ≠ none) :
    Regular (m.mapSelf a) ∧ (m.mapSelf a).tableOf = m.tableOf ∧
      (m.mapSelf a).frameOf (mapNr a) = some (mapNr a) := by
  refine ⟨h.putPte (mapNr_lt a) ht fun _ _ f hf => ?_, ?_⟩
  · rw [entryFrame_self] at hf
    exact (Option.some.inj hf).symm
  · obtain ⟨t, ht⟩ := Option.ne_none_iff_exists'.mp ht
    refine ⟨h.tables.tableOf_putPte (mapNr_lt a) ht _, ?_⟩
    rw [Mem.mapSelf, h.tables.frameOf_putPte (mapNr_lt a) ht _ (mapNr_lt a), if_pos rfl,
      entryFrame_self]

/-- Address 0 is the value for failure. -/
theorem Gives.zero (hg : Gives m 0 m') (h : Regular m) :
    m' = m ∧ m.stock.next = none ∨ Allocates m 0 [] m' := by
  generalize hp : (0 : Word) = p at hg
  cases hg with
  | noFrame hn => exact .inl ⟨rfl, hn⟩
  | @frame m' i js ha =>
      have hlt := ((h.allocated ha).free i (List.mem_cons_self ..)).1
      obtain rfl := (frameAddr_eq_zero hlt).mp hp.symm
      obtain ⟨rfl, -⟩ := ha.first
      exact .inr ha

/-- What a failure of `do_no_page` leaves. -/
theorem Gives.rest (hg : Gives m 0 m') (h : Regular m) :
    Regular m' ∧ m'.tableOf = m.tableOf ∧
      ∀ n < 1048576, 16384 ≤ n → m'.pte n = m.pte n := by
  rcases hg.zero h with ⟨rfl, -⟩ | h0
  · exact ⟨h, rfl, fun _ _ _ => rfl⟩
  · have hA := h.allocated h0
    exact ⟨hA.regular h, h0.first_tableOf h, fun _ => hA.pte_process⟩

theorem FaultDone.regular (hF : FaultDone a m m') (h : Regular m) :
    Regular m' ∧ m'.tableOf (mapNr a / 1024) ≠ none := by
  cases hF with
  | window hT _ =>
      obtain ⟨hr, hT', -⟩ := (hT.regular h).mapSelf (hT.table h)
      exact ⟨hr, hT' ▸ hT.table h⟩
  | noFrame hT _ hg =>
      obtain ⟨hr, hT', -⟩ := hg.rest (hT.regular h)
      exact ⟨hr, hT' ▸ hT.table h⟩
  | page hT ha hA hi =>
      have hob := hA.obtained (hT.regular h) hi
      obtain ⟨hr, hT', -⟩ := hob.page ha (hT.table h)
      exact ⟨hr, hT' ▸ hob.table (hT.table h)⟩

/-- `share_page` repeats `do_no_page`. -/
theorem FromReady.afterFault (hR : FromReady a m₁ m') (hF : FaultDone a m m₁) (h : Regular m)
    (habs : m.frameOf (mapNr a) = none) : FromReady a m m' := by
  cases hF with
  | @window m₀ hT ha =>
      obtain ⟨-, -, hf⟩ := (hT.regular h).mapSelf (hT.table h)
      cases hR with
      | here _ => exact .window habs hT ha
      | window habs' _ _ => exact absurd (hf.symm.trans habs') (Option.some_ne_none _)
      | page habs' _ _ _ => exact absurd (hf.symm.trans habs') (Option.some_ne_none _)
  | @page m₀ m₂ i js hT ha hA hi =>
      obtain ⟨-, -, hf⟩ := (hA.obtained (hT.regular h) hi).page ha (hT.table h)
      cases hR with
      | here _ => exact .page habs hT ha (.now hA hi)
      | window habs' _ _ => exact absurd (hf.symm.trans habs') (Option.some_ne_none _)
      | page habs' _ _ _ => exact absurd (hf.symm.trans habs') (Option.some_ne_none _)
  | @noFrame m₀ m₁ hT ha hg =>
      have h₀ := hT.regular h
      obtain ⟨-, hT₁, hpte⟩ := hg.rest h₀
      have hsame : m₁.pte (mapNr a) = m.pte (mapNr a) :=
        (hpte _ (mapNr_lt a) (window_le ha)).trans (hT.pte_process h (mapNr_lt a) (window_le ha))
      cases hR with
      | here hf =>
          rw [frameOf, hsame] at hf
          exact absurd habs hf
      | window _ _ ha' => exact absurd ha' ha
      | page _ hT' _ ho =>
          obtain rfl := hT'.eq_of_table (by rw [hT₁]; exact hT.table h)
          rcases hg.zero h₀ with ⟨rfl, -⟩ | h0
          · exact .page habs hT ha ho
          · exact .page habs hT ha (ho.after h0)

theorem Regular.needFromPage_result (h : Regular m) (ht : m.tableOf (mapNr a / 1024) ≠ none)
    (hr : needFromPage k m a = some m') : FromReady a m m' := by
  -- on the number of repetitions
  induction k generalizing m with
  | zero =>
      rw [needFromPage] at hr
      cases hr
  | succ k ih =>
      rw [needFromPage, pageEntry_frame ht] at hr
      split_ifs at hr with hf
      · cases hr
        exact .here (Option.isSome_iff_ne_none.mp hf)
      · obtain ⟨m₁, hm₁, hrest⟩ := Option.bind_eq_some_iff.mp hr
        have hF := h.doNoPage_iff.mp ⟨k, hm₁⟩
        obtain ⟨h₁, ht₁⟩ := hF.regular h
        exact (ih h₁ ht₁ hrest).afterFault hF h (by simpa using hf)

/-- There is nothing to do for a page that is mapped. -/
theorem needFrom_mapped (hf : m.frameOf (mapNr a) ≠ none) (k : Nat) :
    needFromTable (k + 1) m a = some m ∧ needFromPage (k + 1) m a = some m := by
  obtain ⟨f, hf'⟩ := Option.ne_none_iff_exists'.mp hf
  obtain ⟨t, ht⟩ := tableOf_of_frameOf hf'
  have hne : m.tableOf (mapNr a / 1024) ≠ none := by
    rw [ht]
    exact Option.some_ne_none t
  rw [needFromTable, needFromPage, tableEntry_present ht, if_pos rfl, pageEntry_frame hne,
    if_pos (Option.isSome_iff_ne_none.mpr hf)]
  exact ⟨rfl, rfl⟩

theorem needFromPage_step (ht : m.tableOf (mapNr a / 1024) ≠ none)
    (habs : m.frameOf (mapNr a) = none) (hd : ∃ k, doNoPage k m a = some m₁)
    (hn : ∃ k, needFromPage k m₁ a = some m') : ∃ k, needFromPage k m a = some m' := by
  obtain ⟨k, hk⟩ := hd
  obtain ⟨k', hk'⟩ := hn
  refine ⟨k + k' + 1, ?_⟩
  rw [needFromPage, pageEntry_frame ht, habs, Option.isSome_none, if_neg (by decide),
    doNoPage_mono hk (by omega), Option.bind_some]
  exact needFromPage_mono hk' (by omega)

/-- Both loops, for a page that is not mapped. -/
theorem needFrom_step (habs : m.frameOf (mapNr a) = none) (hd : ∃ k, doNoPage k m a = some m₁)
    (ht₁ : m₁.tableOf (mapNr a / 1024) ≠ none) (hn : ∃ k, needFromPage k m₁ a = some m') :
    ∃ k m₂, needFromTable k m a = some m₂ ∧ needFromPage k m₂ a = some m' := by
  by_cases ht : m.tableOf (mapNr a / 1024) = none
  · obtain ⟨k, hk⟩ := hd
    obtain ⟨k', hk'⟩ := hn
    have hp : needFromTable (k + k' + 1) m₁ a = some m₁ := by
      rw [needFromTable, present_tableEntry, if_pos (Option.isSome_iff_ne_none.mpr ht₁)]
    refine ⟨k + k' + 1 + 1, m₁, ?_, needFromPage_mono hk' (by omega)⟩
    rw [needFromTable, tableEntry_absent ht, if_neg (by decide), doNoPage_mono hk (by omega),
      Option.bind_some, hp]
  · obtain ⟨k, hk⟩ := needFromPage_step ht habs hd hn
    refine ⟨k + 1, m, ?_, needFromPage_mono hk (Nat.le_succ k)⟩
    rw [needFromTable, present_tableEntry, if_pos (Option.isSome_iff_ne_none.mpr ht)]

theorem Regular.needFrom_iff (h : Regular m) :
    (∃ k m₁, needFromTable k m a = some m₁ ∧ needFromPage k m₁ a = some m') ↔
      FromReady a m m' := by
  constructor
  · rintro ⟨k, m₁, hr₁, hr₂⟩
    cases k with
    | zero =>
        rw [needFromTable] at hr₁
        cases hr₁
    | succ k =>
        rw [needFromTable, present_tableEntry] at hr₁
        split_ifs at hr₁ with ht
        · cases hr₁
          exact h.needFromPage_result (Option.isSome_iff_ne_none.mp ht) hr₂
        · obtain ⟨m₂, hm₂, hrest⟩ := Option.bind_eq_some_iff.mp hr₁
          have hF := h.doNoPage_iff.mp ⟨k, hm₂⟩
          obtain ⟨h₂, ht₂⟩ := hF.regular h
          -- the second test finds the table
          have hend : m₁ = m₂ := by
            cases k with
            | zero =>
                rw [needFromTable] at hrest
                cases hrest
            | succ k =>
                rw [needFromTable, present_tableEntry,
                  if_pos (Option.isSome_iff_ne_none.mpr ht₂)] at hrest
                exact (Option.some.inj hrest).symm
          subst hend
          exact (h₂.needFromPage_result ht₂ hr₂).afterFault hF h
            (frameOf_none (by simpa using ht))
  · have hmapped : ∀ {m₁ : Mem} {f : Nat}, m₁.frameOf (mapNr a) = some f →
        ∃ k, needFromPage k m₁ a = some m₁ := fun hf =>
      ⟨1, (needFrom_mapped (by rw [hf]; exact Option.some_ne_none _) 0).2⟩
    intro hR
    cases hR with
    | here hf => exact ⟨1, m, needFrom_mapped hf 0⟩
    | window habs hT ha =>
        have hF := FaultDone.window hT ha
        exact needFrom_step habs (h.doNoPage_iff.mpr hF) (hF.regular h).2
          (hmapped ((hT.regular h).mapSelf (hT.table h)).2.2)
    | @page m₁ m₂ i habs hT ha ho =>
        have h₁ := hT.regular h
        cases ho with
        | now hA hi =>
            have hF := FaultDone.page hT ha hA hi
            exact needFrom_step habs (h.doNoPage_iff.mpr hF) (hF.regular h).2
              (hmapped ((hA.obtained h₁ hi).page ha (hT.table h)).2.2)
        | @later m₀ js h0 hA =>
            -- once in vain, once with a frame
            have hF := FaultDone.noFrame hT ha (.frame h0)
            obtain ⟨h₀, ht₀⟩ := hF.regular h
            have hi := h0.ne_zero hA
            have hF₀ := FaultDone.page (.here ht₀) ha hA hi
            refine needFrom_step habs (h.doNoPage_iff.mpr hF) ht₀ ?_
            refine needFromPage_step ht₀ ?_ (h₀.doNoPage_iff.mpr hF₀)
              (hmapped ((hA.obtained h₀ hi).page ha ht₀).2.2)
            rw [frameOf, (h₁.allocated h0).pte_process (mapNr_lt a) (window_le ha),
              hT.pte_process h (mapNr_lt a) (window_le ha)]
            exact habs

theorem FromReady.regular (hR : FromReady a m m') (h : Regular m) : Regular m' := by
  cases hR with
  | here _ => exact h
  | window _ hT _ => exact ((hT.regular h).mapSelf (hT.table h)).1
  | page _ hT ha ho => exact ((ho.obtained (hT.regular h)).page ha (hT.table h)).1

/-! ## The stock -/

/-- The page is mapped, or there is a page table or a frame for one and, for a page of a process, a
frame. -/
def MapsFrom (m : Mem) (a : Word) : Prop :=
  m.frameOf (mapNr a) ≠ none ∨ m.stock.HasTable (mapNr a / 1024) ∧
    (a < WINDOW ∨ (m.stock.getTable (mapNr a / 1024)).Ready)

/-- What is left when the page is mapped. -/
def stockFrom (m : Mem) (a : Word) : Stock :=
  if m.frameOf (mapNr a) ≠ none then m.stock
  else if a < WINDOW then m.stock.getTable (mapNr a / 1024)
  else (m.stock.getTable (mapNr a / 1024)).lose.take

instance (m : Mem) (a : Word) : Decidable (m.MapsFrom a) := inferInstanceAs (Decidable (_ ∨ _))

theorem FromReady.stock (hR : FromReady a m m') (h : Regular m) : m'.stock = m.stockFrom a := by
  unfold stockFrom
  cases hR with
  | here hf => rw [if_pos hf]
  | window habs hT ha =>
      obtain ⟨-, hT', -⟩ := (hT.regular h).mapSelf (hT.table h)
      rw [if_neg (not_not.mpr habs), if_pos ha, ← hT.stock h]
      exact stock_congr rfl hT'
  | page habs hT ha ho =>
      obtain ⟨-, hT', -⟩ := (ho.obtained (hT.regular h)).page ha (hT.table h)
      rw [if_neg (not_not.mpr habs), if_neg ha, ← hT.stock h, ← ho.stock (hT.regular h)]
      exact stock_congr rfl hT'

theorem Regular.fromReady_iff (h : Regular m) : (∃ m', FromReady a m m') ↔ m.MapsFrom a := by
  unfold MapsFrom
  by_cases hf : m.frameOf (mapNr a) = none
  · rw [or_iff_right (not_not.mpr hf), ← h.tableMade_iff]
    constructor
    · rintro ⟨m', hR⟩
      cases hR with
      | here hf' => exact absurd hf hf'
      | window _ hT ha => exact ⟨⟨_, hT⟩, .inl ha⟩
      | page _ hT _ ho =>
          refine ⟨⟨_, hT⟩, .inr ?_⟩
          rw [← hT.stock h]
          exact (hT.regular h).obtains_iff.mp ⟨_, _, ho⟩
    · rintro ⟨⟨m₁, hT⟩, hpage⟩
      by_cases ha : a < WINDOW
      · exact ⟨_, .window hf hT ha⟩
      · have hready := hpage.resolve_left ha
        rw [← hT.stock h] at hready
        obtain ⟨i, m₂, ho⟩ := (hT.regular h).obtains_iff.mpr hready
        exact ⟨_, .page hf hT ha ho⟩
  · exact iff_of_true ⟨m, .here hf⟩ (.inl hf)

/-- `share_page` returns when its loops end. -/
theorem Regular.sharePage_iff (h : Regular m) : (∃ k m', sharePage k m a b = some m') ↔
    ∃ m₂, FromReady a m m₂ ∧ ∃ m₃, TableMade (mapNr b / 1024) m₂ m₃ := by
  constructor
  · rintro ⟨k, m', hr⟩
    rw [sharePage] at hr
    obtain ⟨m₁, hr₁, hr⟩ := Option.bind_eq_some_iff.mp hr
    obtain ⟨m₂, hr₂, hr⟩ := Option.bind_eq_some_iff.mp hr
    obtain ⟨m₃, hr₃, -⟩ := Option.map_eq_some_iff.mp hr
    have hR := h.needFrom_iff.mp ⟨k, m₁, hr₁, hr₂⟩
    exact ⟨m₂, hR, m₃, (hR.regular h).needTable_iff.mp ⟨k, hr₃⟩⟩
  · rintro ⟨m₂, hR, m₃, hT⟩
    obtain ⟨k, m₁, hr₁, hr₂⟩ := h.needFrom_iff.mpr hR
    obtain ⟨k', hr₃⟩ := (hR.regular h).needTable_iff.mpr hT
    -- one bound for all three loops
    refine ⟨k + k', ?_⟩
    rw [sharePage, needFromTable_mono hr₁ (by omega), Option.bind_some,
      needFromPage_mono hr₂ (by omega), Option.bind_some, needTable_mono hr₃ (by omega)]
    exact ⟨_, rfl⟩

/-- **`share_page` returns** when the page `from` is mapped or can be, and there is a page table for
`to` then or a frame for one. -/
theorem Regular.sharePage_returns (h : Regular m) : (∃ k m', sharePage k m a b = some m') ↔
    m.MapsFrom a ∧ (m.stockFrom a).HasTable (mapNr b / 1024) := by
  rw [h.sharePage_iff, ← h.fromReady_iff]
  constructor
  · rintro ⟨m₂, hR, hT⟩
    refine ⟨⟨m₂, hR⟩, ?_⟩
    rw [← hR.stock h]
    exact (hR.regular h).tableMade_iff.mp hT
  · rintro ⟨⟨m₂, hR⟩, hT⟩
    rw [← hR.stock h] at hT
    exact ⟨m₂, hR, (hR.regular h).tableMade_iff.mpr hT⟩

/-- Frame 9213 is spare: block 8 has no page table. -/
example : ((⟨[9213, 9221], by decide, fun d => d = 9 || d = 16⟩ : Stock).getTable 16).Ends := by
  decide

end Mks.Mem
