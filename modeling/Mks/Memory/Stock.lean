import Mks.Memory.Chains

set_option autoImplicit false

/-! # The frames that are left

Whether `get_free_page` returns is a matter of the free frames and of the blocks that have a page
table: a `Stock`. The call passes over the spare frames, the frames `0x3FD` of blocks without a page
table, to the next one, and returns if that one has its page table (`Regular.getFreePage_iff`).
-/

namespace Mks

/-- The free frames in ascending order, and the blocks of 1024 frames that have a page table. -/
@[ext] structure Stock where
  free : List Nat
  nodup : free.Nodup
  table : Nat → Bool

namespace Stock

/-- Frame `0x3FD` of a block without a page table. -/
def spare (s : Stock) (f : Nat) : Bool := f % 1024 = 1021 && !s.table (f / 1024)

/-- The first free frame that is not spare. -/
def next (s : Stock) : Option Nat := s.free.find? fun f => !s.spare f

/-- The next frame, if there is one, has its page table. -/
def Ends (s : Stock) : Prop := ∀ g ∈ s.next, s.table (g / 1024)

/-- There is a next frame, with its page table. -/
def Yields (s : Stock) : Prop := ∃ g ∈ s.next, s.table (g / 1024)

instance (s : Stock) : Decidable s.Ends := inferInstanceAs (Decidable (∀ g ∈ s.next, _))

instance (s : Stock) : Decidable s.Yields := inferInstanceAs (Decidable (∃ g ∈ s.next, _))

/-- The spare frames before the next frame are taken with it: their blocks have page tables then. -/
def take (s : Stock) : Stock where
  free := (s.free.dropWhile s.spare).tail
  nodup := (s.nodup.sublist (List.dropWhile_sublist _)).tail
  table d := s.table d || (s.free.takeWhile s.spare).any fun f => f / 1024 = d

def withTable (s : Stock) (d : Nat) : Stock := { s with table := fun e => s.table e || e = d }

variable {s : Stock} {i : Nat} {rest : List Nat}

theorem take_free (s : Stock) : s.take.free = (s.free.dropWhile s.spare).tail := rfl

theorem take_table (s : Stock) (d : Nat) :
    s.take.table d = (s.table d || (s.free.takeWhile s.spare).any fun f => f / 1024 = d) := rfl

@[simp] theorem withTable_free (s : Stock) (d : Nat) : (s.withTable d).free = s.free := rfl

theorem withTable_table (s : Stock) (d e : Nat) :
    (s.withTable d).table e = (s.table e || e = d) := rfl

theorem Yields.ends (h : s.Yields) : s.Ends := by
  obtain ⟨g, hg, ht⟩ := h
  intro g' hg'
  rw [Option.mem_unique hg' hg]
  exact ht

/-- The first frame is not spare. -/
theorem next_cons (hf : s.free = i :: rest) (hi : s.spare i = false) : s.next = some i := by
  rw [next, hf, List.find?_cons_of_pos (by rw [hi]; rfl)]

theorem take_cons (hf : s.free = i :: rest) (hi : s.spare i = false) :
    s.take.free = rest ∧ s.take.table = s.table := by
  constructor
  · rw [take_free, hf, List.dropWhile_cons_of_neg (by simp [hi]), List.tail_cons]
  · funext d
    rw [take_table, hf, List.takeWhile_cons_of_neg (by simp [hi]), List.any_nil, Bool.or_false]

section
variable {s' : Stock} (hf : s.free = i :: s'.free) (ht : s'.table = s.table) (hi : s.spare i = true)
include hf ht hi

/-- The first frame is spare. -/
theorem next_spare : s.next = s'.next := by
  rw [next, hf, List.find?_cons_of_neg (by simp [hi]), next]
  unfold spare
  rw [ht]

theorem take_spare : s.take = s'.take.withTable (i / 1024) := by
  have hsp : s'.spare = s.spare := by
    funext f
    rw [spare, spare, ht]
  ext1
  · rw [withTable_free, take_free, take_free, hf, List.dropWhile_cons_of_pos hi, hsp]
  · funext d
    rw [withTable_table, take_table, take_table, hf, List.takeWhile_cons_of_pos hi, List.any_cons,
      hsp, ht, Bool.or_assoc, Bool.or_comm (decide (i / 1024 = d)),
      decide_eq_decide.mpr (eq_comm (a := d))]

end

/-! ## The retry loops

The address of frame 0 is the value for failure. A loop that waits for a frame uses frame 0 up and
goes on.
-/

/-- Without frame 0. -/
def lose (s : Stock) : Stock := if s.free.head? = some 0 then s.take else s

/-- A loop that waits for a frame ends. -/
def Ready (s : Stock) : Prop := (s.free.head? = some 0 → s.table 0) ∧ s.lose.Yields

/-- There is a page table for block `d`, or a frame for one. -/
def HasTable (s : Stock) (d : Nat) : Prop := s.table d ∨ s.Ready

def getTable (s : Stock) (d : Nat) : Stock := if s.table d then s else s.lose.take.withTable d

instance (s : Stock) : Decidable s.Ready := inferInstanceAs (Decidable (_ ∧ _))

instance (s : Stock) (d : Nat) : Decidable (s.HasTable d) := inferInstanceAs (Decidable (_ ∨ _))

theorem lose_of_ne (h : s.free.head? ≠ some 0) : s.lose = s := if_neg h

/-! ## Enough frames -/

/-- The first `n` free frames have their page tables, and there are as many. -/
def Supplied (s : Stock) (n : Nat) : Prop :=
  n ≤ s.free.length ∧ ∀ f ∈ s.free.take n, s.table (f / 1024)

/-- Loops get `n` frames, frame 0 not counted. -/
def Lasts (s : Stock) (n : Nat) : Prop := s.Supplied ((if 0 ∈ s.free then 1 else 0) + n)

instance (s : Stock) (n : Nat) : Decidable (s.Lasts n) :=
  inferInstanceAs (Decidable (_ ∧ ∀ f ∈ _, _))

theorem Supplied.mono {n k : Nat} (h : s.Supplied n) (hk : k ≤ n) : s.Supplied k :=
  ⟨hk.trans h.1, fun f hf => h.2 f (List.take_subset_take_left _ hk hf)⟩

/-- One frame after the other. -/
theorem Supplied.take {n : Nat} (h : s.Supplied (n + 1)) :
    s.Yields ∧ s.take.Supplied n ∧ s.take.free = s.free.tail ∧ s.take.table = s.table := by
  obtain ⟨hle, hall⟩ := h
  cases hf : s.free with
  | nil =>
      rw [hf] at hle
      exact absurd hle (Nat.not_succ_le_zero n)
  | cons i rest =>
      rw [hf] at hle hall
      have hcov : s.table (i / 1024) = true := hall i (List.mem_cons_self ..)
      have hi : s.spare i = false := by
        rw [spare, hcov, Bool.not_true, Bool.and_false]
      obtain ⟨hfree, htable⟩ := take_cons hf hi
      refine ⟨⟨i, next_cons hf hi, hcov⟩, ⟨?_, fun f hfr => ?_⟩, hfree, htable⟩
      · rw [hfree]
        exact Nat.le_of_succ_le_succ hle
      · rw [hfree] at hfr
        rw [htable]
        exact hall f (List.mem_cons_of_mem _ hfr)

theorem Lasts.mono {n k : Nat} (h : s.Lasts n) (hk : k ≤ n) : s.Lasts k :=
  Supplied.mono h (Nat.add_le_add_left hk _)

/-- A loop gets a frame. -/
theorem Lasts.ready {n : Nat} (h : s.Lasts (n + 1)) :
    s.Ready ∧ s.lose.take.Lasts n ∧ s.lose.take.table = s.table := by
  by_cases hz : s.free.head? = some 0
  · -- frame 0 comes first
    obtain ⟨rest, hf⟩ := List.head?_eq_some_iff.mp hz
    have hmem : 0 ∈ s.free := by
      rw [hf]
      exact List.mem_cons_self ..
    have hnd := s.nodup
    rw [hf] at hnd
    unfold Lasts at h
    rw [if_pos hmem, Nat.add_comm] at h
    have h0 : s.table 0 = true := h.2 0 (by rw [hf]; exact List.mem_cons_self ..)
    obtain ⟨-, hs, hfree, htable⟩ := h.take
    have hlose : s.lose = s.take := if_pos hz
    obtain ⟨hy, hs', hfree', htable'⟩ := hs.take
    have hno : 0 ∉ s.take.take.free := by
      rw [hfree', hfree, hf]
      exact fun hr => (List.nodup_cons.mp hnd).1 (List.mem_of_mem_tail hr)
    rw [Ready, hlose]
    refine ⟨⟨fun _ => h0, hy⟩, ?_, htable'.trans htable⟩
    unfold Lasts
    rwa [if_neg hno, Nat.zero_add]
  · have hs : s.Supplied (((if 0 ∈ s.free then 1 else 0) + n) + 1) := h
    obtain ⟨hy, hs', hfree, htable⟩ := hs.take
    rw [Ready, lose_of_ne hz]
    refine ⟨⟨fun h0 => absurd h0 hz, hy⟩, hs'.mono (Nat.add_le_add_right ?_ n), htable⟩
    rw [hfree]
    split_ifs with h0 h1
    · exact le_rfl
    · exact absurd (List.mem_of_mem_tail h0) h1
    · exact Nat.zero_le _
    · exact le_rfl

theorem Lasts.withTable {n : Nat} (h : s.Lasts n) (d : Nat) : (s.withTable d).Lasts n :=
  ⟨h.1, fun f hf => by rw [withTable_table, h.2 f hf, Bool.true_or]⟩

/-- A page table takes a frame at most. -/
theorem Lasts.getTable {n k d : Nat} (h : s.Lasts (k + n)) (hk : s.table d = true ∨ 1 ≤ k) :
    s.HasTable d ∧ (s.getTable d).Lasts n ∧
      ∀ e, (s.getTable d).table e = (s.table e || e = d) := by
  unfold HasTable Stock.getTable
  by_cases ht : s.table d = true
  · rw [if_pos ht]
    refine ⟨.inl ht, h.mono (Nat.le_add_left n k), fun e => ?_⟩
    by_cases hed : e = d
    · rw [hed, ht, Bool.true_or]
    · rw [decide_eq_false hed, Bool.or_false]
  · have hk := hk.resolve_left ht
    obtain ⟨hr, hl, htable⟩ := (h.mono (show n + 1 ≤ k + n by omega)).ready
    rw [if_neg ht]
    refine ⟨.inr hr, hl.withTable d, fun e => ?_⟩
    rw [withTable_table, htable]

theorem take_erase_subset (l : List Nat) (x r : Nat) : (l.erase x).take r ⊆ l.take (r + 1) := by
  induction l generalizing r with
  | nil => simp
  | cons y l ih =>
      rw [List.take_succ_cons]
      by_cases hyx : y = x
      · rw [hyx, List.erase_cons_head]
        exact fun i hi => List.mem_cons_of_mem _ hi
      · rw [List.erase_cons_tail (by simpa using hyx)]
        cases r with
        | zero => simp
        | succ r =>
            rw [List.take_succ_cons]
            exact List.cons_subset_cons y (ih r)

/-- A frame is given away elsewhere, if it is free. -/
theorem Lasts.erase {s' : Stock} {f n : Nat} (hf : s'.free = s.free.erase f)
    (ht : s'.table = s.table) (h : s.Lasts ((if f ∈ s.free then 1 else 0) + n)) : s'.Lasts n := by
  have hz : (if 0 ∈ s'.free then 1 else 0) ≤ (if 0 ∈ s.free then 1 else 0) := by
    rw [hf]
    split_ifs with h0 h1
    · exact le_rfl
    · exact absurd (List.mem_of_mem_erase h0) h1
    · exact Nat.zero_le _
    · exact le_rfl
  unfold Lasts at h ⊢
  generalize (if 0 ∈ s'.free then 1 else 0) = z' at hz ⊢
  generalize (if 0 ∈ s.free then 1 else 0) = z at hz h
  by_cases hmem : f ∈ s.free
  · rw [if_pos hmem] at h
    obtain ⟨hle, hall⟩ := h.mono (show z' + n + 1 ≤ z + (1 + n) by omega)
    constructor
    · rw [hf, List.length_erase_of_mem hmem]
      omega
    · intro g hg
      rw [hf] at hg
      rw [ht]
      exact hall g (take_erase_subset _ _ _ hg)
  · rw [if_neg hmem, Nat.zero_add] at h
    obtain ⟨hle, hall⟩ := h.mono (show z' + n ≤ z + n by omega)
    have hsame : s'.free = s.free := hf.trans (List.erase_of_not_mem hmem)
    constructor
    · rwa [hsame]
    · rwa [hsame, ht]

end Stock

namespace Mem

variable {m m' m₁ : Mem} {i : Nat} {js : List Nat}

def stock (m : Mem) : Stock where
  free := m.frees
  nodup := unused_nodup m _
  table d := (m.tableOf d).isSome

theorem stock_table {d : Nat} : m.stock.table d = true ↔ m.tableOf d ≠ none :=
  Option.isSome_iff_ne_none

theorem stock_covered (f : Nat) : m.stock.table (f / 1024) = true ↔ m.Covered f := stock_table

theorem stock_spare (i : Nat) : m.stock.spare i = true ↔ i % 1024 = 1021 ∧ ¬ m.Covered i := by
  rw [Stock.spare, Bool.and_eq_true, decide_eq_true_eq, Bool.not_eq_true', ← Bool.not_eq_true,
    stock_covered]

theorem stock_head : m.stock.free.head? = m.firstFree := frees_head m

theorem stock_congr (hm : m'.memMap = m.memMap) (hT : m'.tableOf = m.tableOf) :
    m'.stock = m.stock := by
  ext1
  · exact frees_congr hm
  · funext d
    show (m'.tableOf d).isSome = _
    rw [hT]
    rfl

/-- The new page table of block `d`. -/
theorem setTable_stock {d j : Nat} (hj : j < PAGING_PAGES) :
    (m.setTable d j).stock = m.stock.withTable d := by
  ext1
  · exact frees_congr rfl
  · funext e
    show ((m.setTable d j).tableOf e).isSome = _
    rw [setTable_tableOf hj, Stock.withTable_table, Function.update_apply]
    split_ifs with he
    · simp [he]
    · simp [he, stock]

/-! ## The call -/

section
variable (hf : m.firstFree = some i)
include hf

/-- The first free frame is given away. -/
theorem stock_free (hm : m'.memMap = Function.update m.memMap i 1) :
    m.stock.free = i :: m'.stock.free := frees_take hf hm

theorem stock_next (hi : m.stock.spare i = false) : m.stock.next = some i :=
  have hfree : m.stock.free = i :: (m.setMap i 1).stock.free := stock_free hf rfl
  Stock.next_cons hfree hi

theorem stock_next_spare (hi : m.stock.spare i = true) :
    m.stock.next = (m.setMap i 1).stock.next :=
  Stock.next_spare (stock_free hf rfl) rfl hi

end

/-- **The stock after the call.** -/
theorem Allocates.stock (ha : Allocates m i js m') (h : Regular m) : m'.stock = m.stock.take := by
  induction ha with
  | @covered m i hf hcov =>
      obtain ⟨hlt, hun, -⟩ := firstFree_some hf
      have hi : m.stock.spare i = false := by
        rw [← Bool.not_eq_true, stock_spare]
        exact fun hs => hs.2 hcov
      have hT := (h.unlinked i hlt hun).grab_tableOf h.tables hlt hcov
      obtain ⟨hfree, htable⟩ := Stock.take_cons (stock_free hf (grab_memMap m i)) hi
      ext1
      · exact hfree.symm
      · rw [htable]
        funext d
        show ((m.grab i).tableOf d).isSome = _
        rw [hT]
        rfl
  | @table m m₁ i j js hf hno hmod hj ih =>
      obtain ⟨hlt, hun, -⟩ := firstFree_some hf
      have hr := h.setMap i (c := 1) (by decide)
      have hA := hr.allocated hj
      have hi : m.stock.spare i = true := (stock_spare i).mpr ⟨hmod, hno⟩
      have hjlt := (hA.taken (List.mem_cons_self ..)).1
      -- the candidate counts as used in the nested call
      have hmap : ((m₁.tabled i j).grab i).memMap = m₁.memMap := by
        funext f
        rw [hA.table_memMap, hA.memMap,
          show (m.setMap i 1).memMap f = Function.update m.memMap i 1 f from rfl,
          Function.update_apply]
        by_cases hfi : f = i
        · simp [hfi]
        · simp [hfi]
      have hT : ((m₁.tabled i j).grab i).tableOf = (m₁.setTable (i / 1024) j).tableOf :=
        (h.tabled_unlinked hA hf).grab_tableOf (h.tabled_tables hA) hlt (tabled_covered hjlt i)
      have hfree : m.stock.free = i :: (m.setMap i 1).stock.free := stock_free hf rfl
      rw [stock_congr (m := m₁.setTable (i / 1024) j) hmap hT, setTable_stock hjlt, ih hr,
        Stock.take_spare hfree rfl hi]

/-- The chain of frames is that of the call. -/
theorem Allocates.getFreePage (ha : Allocates m i js m') (h : Regular m) :
    ∃ k, ∀ n ≥ k, getFreePage n m = some (frameAddr i, m') := by
  induction ha with
  | covered hf hcov => exact ⟨4, fun n hn => getFreePage_mono (getFreePage_covered hf hcov 0) hn⟩
  | @table m m₁ i j js hf hno hmod hj ih =>
      obtain ⟨hlt, -, hused⟩ := firstFree_some hf
      have hr := h.setMap i (c := 1) (by decide)
      have hA := hr.allocated hj
      obtain ⟨hjlt, hji, hjun⟩ := hA.taken (List.mem_cons_self ..)
      obtain ⟨k, hk⟩ := ih hr
      have hj0 : frameAddr j ≠ 0 := by
        rw [Ne, frameAddr_eq_zero hjlt]
        -- a frame after the candidate
        have hij : ¬ j < i := fun hlt => hused j hlt hjun
        omega
      refine ⟨k + 4, fun n hn => getFreePage_mono ?_ hn⟩
      rw [getFreePage_special hf hno hmod (hk (k + 2) (by omega)), if_neg hj0]
      show (touch (k + 3) (m₁.tabled i j) i).map _ = _
      rw [touch_covered hlt (tabled_covered hjlt i)]
      rfl

/-- There is no frame, or only spare ones: the call fails. There is a next one within reach: the
call takes it. There is a next one out of reach: the call does not return. -/
theorem Regular.getFreePage_cases (h : Regular m) :
    (m.stock.next = none ∧ ∃ k, ∀ n ≥ k, Mem.getFreePage n m = some (0, m)) ∨
      (m.stock.Yields ∧ ∃ i js m', Allocates m i js m') ∨
      ¬ m.stock.Ends ∧ ∀ n, Mem.getFreePage n m = none := by
  induction hn : m.frees.length generalizing m with
  | zero =>
      have hnil := List.length_eq_zero_iff.mp hn
      refine .inl ⟨?_, 1, fun n hn =>
        getFreePage_mono (getFreePage_none (firstFree_nil hnil) 0) hn⟩
      rw [Stock.next, show m.stock.free = [] from hnil, List.find?_nil]
  | succ n ih =>
      obtain ⟨i, hf⟩ : ∃ i, m.firstFree = some i := by
        cases hf : m.frees with
        | nil =>
            rw [hf] at hn
            cases hn
        | cons i rest => exact ⟨i, firstFree_cons hf⟩
      obtain ⟨hlt, hun, -⟩ := firstFree_some hf
      cases hi : m.stock.spare i with
      | false =>
          have hnext := stock_next hf hi
          by_cases hcov : m.Covered i
          · exact .inr (.inl ⟨⟨i, hnext, (stock_covered i).mpr hcov⟩, i, [], _, .covered hf hcov⟩)
          · refine .inr (.inr ⟨fun hE => hcov ((stock_covered i).mp (hE i hnext)), fun n => ?_⟩)
            refine getFreePage_uncovered hf hcov (fun hmod => ?_) n
            rw [(stock_spare i).mpr ⟨hmod, hcov⟩] at hi
            cases hi
      | true =>
          obtain ⟨hmod, hno⟩ := (stock_spare i).mp hi
          have hnext := stock_next_spare hf hi
          have htable : m.stock.table = (m.setMap i 1).stock.table := rfl
          have hlen : (m.setMap i 1).frees.length = n := by
            have htake : m.frees = i :: (m.setMap i 1).frees := frees_take hf rfl
            rw [htake, List.length_cons] at hn
            omega
          unfold Stock.Yields Stock.Ends
          rw [hnext, htable]
          rcases ih (h.setMap i (by decide)) hlen with
            ⟨hno', k, hk⟩ | ⟨hy, j, js, m₁, ha⟩ | ⟨hE, hk⟩
          · -- no frame for the page table: the candidate is free again
            refine .inl ⟨hno', k + 2, fun n hn => getFreePage_mono ?_ hn⟩
            rw [getFreePage_special hf hno hmod (hk k le_rfl), if_pos rfl, setMap_unused hun]
          · exact .inr (.inl ⟨hy, i, j :: js, _, .table hf hno hmod ha⟩)
          · refine .inr (.inr ⟨hE, fun n => ?_⟩)
            exact getFreePage_special_none hf hno hmod hk n

/-- What `get_free_page` returns, and what it leaves. -/
inductive Gives (m : Mem) : Word → Mem → Prop
  | noFrame (hn : m.stock.next = none) : Gives m 0 m
  | frame {m' : Mem} {i : Nat} {js : List Nat} (ha : Allocates m i js m') :
      Gives m (frameAddr i) m'

/-- **`get_free_page`** -/
theorem Regular.getFreePage_iff (h : Regular m) {p : Word} :
    (∃ k, Mem.getFreePage k m = some (p, m')) ↔ Gives m p m' := by
  constructor
  · rintro ⟨k, hr⟩
    -- a greater bound gives the same result
    have hdet : ∀ {q m₁}, (∃ k, ∀ n ≥ k, Mem.getFreePage n m = some (q, m₁)) →
        p = q ∧ m' = m₁ := by
      rintro q m₁ ⟨k', hk'⟩
      have he := (getFreePage_mono hr (le_max_left k k')).symm.trans (hk' _ (le_max_right ..))
      exact Prod.mk.inj (Option.some.inj he)
    rcases h.getFreePage_cases with ⟨hn, hk⟩ | ⟨-, i, js, m₁, ha⟩ | ⟨-, hk⟩
    · obtain ⟨rfl, rfl⟩ := hdet hk
      exact .noFrame hn
    · obtain ⟨rfl, rfl⟩ := hdet (ha.getFreePage h)
      exact .frame ha
    · rw [hk] at hr
      cases hr
  · rintro (hn | ha)
    · rcases h.getFreePage_cases with ⟨-, k, hk⟩ | ⟨⟨g, hg, -⟩, -⟩ | ⟨hE, -⟩
      · exact ⟨k, hk k le_rfl⟩
      · rw [hn] at hg
        cases hg
      · refine absurd (fun g hg => ?_) hE
        rw [hn] at hg
        cases hg
    · obtain ⟨k, hk⟩ := ha.getFreePage h
      exact ⟨k, hk k le_rfl⟩

theorem Allocates.yields (ha : Allocates m i js m') (h : Regular m) : m.stock.Yields := by
  obtain ⟨k, hk⟩ := ha.getFreePage h
  rcases h.getFreePage_cases with ⟨-, k', hk'⟩ | ⟨hy, -⟩ | ⟨-, hk'⟩
  · -- the call would change nothing, and the frame be free
    have he := (hk _ (le_max_left k k')).symm.trans (hk' _ (le_max_right ..))
    obtain ⟨-, rfl⟩ := Prod.mk.inj (Option.some.inj he)
    have hun := (firstFree_some ha.firstFree).2.1
    exact absurd (List.mem_cons_self ..) ((h.allocated ha).unused hun).1
  · exact hy
  · have he := hk k le_rfl
    rw [hk'] at he
    cases he

/-- **The stock decides whether `get_free_page` returns.** -/
theorem Regular.gives_iff (h : Regular m) : (∃ p m', Gives m p m') ↔ m.stock.Ends := by
  constructor
  · rintro ⟨p, m', hn | ha⟩
    · intro g hg
      rw [hn] at hg
      cases hg
    · exact (ha.yields h).ends
  · intro hE
    rcases h.getFreePage_cases with ⟨hn, -⟩ | ⟨-, i, js, m', ha⟩ | ⟨hE', -⟩
    · exact ⟨0, m, .noFrame hn⟩
    · exact ⟨_, m', .frame ha⟩
    · exact absurd hE hE'

theorem Regular.allocates_iff (h : Regular m) :
    (∃ i js m', Allocates m i js m') ↔ m.stock.Yields := by
  constructor
  · rintro ⟨i, js, m', ha⟩
    exact ha.yields h
  · rintro ⟨g, hg, ht⟩
    rcases h.getFreePage_cases with ⟨hn, -⟩ | ⟨-, ha⟩ | ⟨hE, -⟩
    · rw [hn] at hg
      cases hg
    · exact ha
    · exact absurd (Stock.Yields.ends ⟨g, hg, ht⟩) hE

end Mem

end Mks
