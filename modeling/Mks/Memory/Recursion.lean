import Mks.Memory.Allocation
import Mks.Memory.Boot
import Mks.Memory.Range
import Mks.Lib.Run

set_option autoImplicit false

/-! # The recursion of `get_free_page`

`get_free_page` may call itself: through `create_page_table` for frames with number `0x3FD` modulo
`0x400`, and through the page fault of its own loop that clears the frame. `Enters c m m₁` says that
it is entered in state `m₁` while `c` runs from state `m`, also when `c` does not return.

The special case looks for the page table of the frame's own 4MB block, not of the next one. So with
more than 32MB the first frame above 32MB has no page table when the memory below is used up, and
`get_free_page` does not return (`endless`); otherwise it returns, and its loop does not fault for a
missing page table (`allocation_returns`).
-/

namespace Mks.Mem

variable {m m₀ m₁ m' : Mem} {hi : Nat}

/-! ## The calls -/

inductive AllocCall
  | getFreePage
  | createPageTable (addr : Word)
  | doNoPage (addr : Word)
  | doWpPage (addr : Word)
  | sharePage (fromAddr toAddr : Word)
  deriving DecidableEq

namespace AllocCall

def exec (k : Nat) (m : Mem) : AllocCall → Option Mem
  | getFreePage => (m.getFreePage k).map Prod.snd
  | createPageTable addr => (m.createPageTable k addr).map Prod.snd
  | doNoPage addr => m.doNoPage k addr
  | doWpPage addr => m.doWpPage k addr
  | sharePage fromAddr toAddr => m.sharePage k fromAddr toAddr

/-- `do_wp_page` gets a page of a process that is mapped, and `share_page` maps a page of a process,
to a frame whose counter can go up. -/
def Proper (m : Mem) : AllocCall → Prop
  | getFreePage | createPageTable _ | doNoPage _ => True
  | doWpPage addr => ¬ addr < WINDOW ∧ m.frameOf (mapNr addr) ≠ none
  | sharePage fromAddr toAddr => ¬ toAddr < WINDOW ∧ m.Countable fromAddr

end AllocCall

def AllocStep (m : Mem) (c : AllocCall) (m' : Mem) : Prop := ∃ k, c.exec k m = some m'

/-- **One call** keeps the kernel window. -/
theorem Window.step {c : AllocCall} (h : Window hi m) (hs : AllocStep m c m') (hc : c.Proper m) :
    Window hi m' := by
  obtain ⟨k, hex⟩ := hs
  cases c with
  | getFreePage =>
      obtain ⟨⟨p, m₂⟩, hp, rfl⟩ := Option.map_eq_some_iff.mp hex
      exact (h.getFreePage_got hp).window h
  | createPageTable addr =>
      obtain ⟨⟨r, m₂⟩, hr, rfl⟩ := Option.map_eq_some_iff.mp hex
      rcases h.createPageTable_result hr with ⟨-, rfl, -⟩ | hT
      · exact h
      · exact hT.window h (block_lt addr)
  | doNoPage addr => exact (h.doNoPage_result hex).window_kept h
  | doWpPage addr => exact h.doWpPage_window hc.1 hc.2 hex
  | sharePage fromAddr toAddr => exact h.sharePage_window hc.1 hc.2 hex

theorem run_window {tr : List (Mem × AllocCall × Mem)} (h₀ : Window hi m₀)
    (hr : Run AllocStep m₀ tr m) (hc : ∀ t ∈ tr, t.2.1.Proper t.1) : Window hi m :=
  hr.invariant_of (C := fun m c _ => c.Proper m) hc h₀ fun h hs hc => h.step hs hc

/-! ## The entries of `get_free_page` -/

/-- What runs: a function or one of the loops around it. -/
inductive Activity
  | getFreePage
  | touch (i : Nat)
  | createPageTable (addr : Word)
  | needTable (addr : Word)
  | doNoPage (addr : Word)
  | doWpPage (addr : Word)
  | needFromTable (addr : Word)
  | needFromPage (addr : Word)
  | sharePage (fromAddr toAddr : Word)

def AllocCall.activity : AllocCall → Activity
  | getFreePage => .getFreePage
  | createPageTable addr => .createPageTable addr
  | doNoPage addr => .doNoPage addr
  | doWpPage addr => .doWpPage addr
  | sharePage fromAddr toAddr => .sharePage fromAddr toAddr

/-- `get_free_page`, entered in state `m`, is about to clear frame `i`. -/
inductive Zeroes (m : Mem) (i : Nat) : Mem → Prop
  | plain (hf : m.firstFree = some i) (h3 : ¬ i &&& 0x3FF = 0x3FD) : Zeroes m i m
  | special {n : Nat} {j : Int} {m₁ : Mem} (hf : m.firstFree = some i) (h3 : i &&& 0x3FF = 0x3FD)
      (hc : createPageTable n (m.setMap i 1) (frameAddr (i + 2)) = some (j, m₁)) (hj : j ≠ -1) :
      Zeroes m i (m₁.setMap i 0)

/-- `get_free_page` is entered in the last state. -/
inductive Enters : Activity → Mem → Mem → Prop
  | here {m : Mem} : Enters .getFreePage m m
  | special {m m₁ : Mem} {i : Nat} (hf : m.firstFree = some i) (h3 : i &&& 0x3FF = 0x3FD)
      (he : Enters (.createPageTable (frameAddr (i + 2))) (m.setMap i 1) m₁) :
      Enters .getFreePage m m₁
  | zeroing {m m' m₁ : Mem} {i : Nat} (hz : Zeroes m i m') (he : Enters (.touch i) m' m₁) :
      Enters .getFreePage m m₁
  | fault {m m₁ : Mem} {i : Nat}
      (hp : ¬ (present (m.tableEntry (frameAddr i)) && present (m.pageEntry (frameAddr i))))
      (he : Enters (.doNoPage (frameAddr i)) m m₁) : Enters (.touch i) m m₁
  | newTable {m m₁ : Mem} {addr : Word} (hp : ¬ present (m.tableEntry addr))
      (he : Enters .getFreePage m m₁) : Enters (.createPageTable addr) m m₁
  | table {m m₁ : Mem} {addr : Word} (hp : ¬ present (m.tableEntry addr))
      (he : Enters (.createPageTable addr) m m₁) : Enters (.needTable addr) m m₁
  | tableAgain {m m' m₁ : Mem} {addr : Word} {n : Nat} {r : Int}
      (hp : ¬ present (m.tableEntry addr)) (hr : createPageTable n m addr = some (r, m'))
      (he : Enters (.needTable addr) m' m₁) : Enters (.needTable addr) m m₁
  | noPageTable {m m₁ : Mem} {addr : Word} (he : Enters (.needTable addr) m m₁) :
      Enters (.doNoPage addr) m m₁
  | noPage {m m' m₁ : Mem} {addr : Word} {n : Nat} (hr : needTable n m addr = some m')
      (ha : ¬ addr < WINDOW) (he : Enters .getFreePage m' m₁) : Enters (.doNoPage addr) m m₁
  | copy {m m₁ : Mem} {addr : Word}
      (hne : m.memMap (mapNr (m.load (pagePtr (m.tableEntry addr) addr) &&& 0xFFFFF000)) ≠ 1)
      (he : Enters .getFreePage m m₁) : Enters (.doWpPage addr) m m₁
  | fromTable {m m₁ : Mem} {addr : Word} (hp : ¬ present (m.tableEntry addr))
      (he : Enters (.doNoPage addr) m m₁) : Enters (.needFromTable addr) m m₁
  | fromTableAgain {m m' m₁ : Mem} {addr : Word} {n : Nat} (hp : ¬ present (m.tableEntry addr))
      (hr : doNoPage n m addr = some m') (he : Enters (.needFromTable addr) m' m₁) :
      Enters (.needFromTable addr) m m₁
  | fromPage {m m₁ : Mem} {addr : Word} (hp : ¬ present (m.pageEntry addr))
      (he : Enters (.doNoPage addr) m m₁) : Enters (.needFromPage addr) m m₁
  | fromPageAgain {m m' m₁ : Mem} {addr : Word} {n : Nat} (hp : ¬ present (m.pageEntry addr))
      (hr : doNoPage n m addr = some m') (he : Enters (.needFromPage addr) m' m₁) :
      Enters (.needFromPage addr) m m₁
  | shareTable {m m₁ : Mem} {fromAddr toAddr : Word} (he : Enters (.needFromTable fromAddr) m m₁) :
      Enters (.sharePage fromAddr toAddr) m m₁
  | sharePage {m m' m₁ : Mem} {fromAddr toAddr : Word} {n : Nat}
      (hr : needFromTable n m fromAddr = some m') (he : Enters (.needFromPage fromAddr) m' m₁) :
      Enters (.sharePage fromAddr toAddr) m m₁
  | shareTo {m m' m'' m₁ : Mem} {fromAddr toAddr : Word} {n n' : Nat}
      (hr : needFromTable n m fromAddr = some m') (hr' : needFromPage n' m' fromAddr = some m'')
      (he : Enters (.needTable toAddr) m'' m₁) : Enters (.sharePage fromAddr toAddr) m m₁

theorem Enters.absent {addr : Word} (he : Enters (.createPageTable addr) m m₁) :
    ¬ present (m.tableEntry addr) := by
  cases he with
  | newTable hp _ => exact hp

/-- The page table that the special case asks for is that of the frame itself. -/
theorem special_block {i : Nat} (h3 : i &&& 0x3FF = 0x3FD) (hlt : i < PAGING_PAGES) :
    mapNr (frameAddr (i + 2)) / 1024 = i / 1024 := by
  have hmod : i % 1024 = 1021 := by
    rw [← h3]
    exact (Nat.and_two_pow_sub_one_eq_mod i 10).symm
  unfold PAGING_PAGES at hlt
  rw [mapNr_frameAddr (by omega)]
  omega

/-- The special case comes up only for frames that have a page table. -/
theorem Window.special_covered (h : Window hi m) {i : Nat} (hf : m.firstFree = some i)
    (h3 : i &&& 0x3FF = 0x3FD) : m.Covered i := by
  by_contra hno
  have hmod := (h.uncovered_first hf hno).2
  have h3 : i &&& 2 ^ 10 - 1 = 0x3FD := h3
  rw [Nat.and_two_pow_sub_one_eq_mod, hmod] at h3
  cases h3

/-- The frame is cleared in the state in which `get_free_page` has been entered. -/
theorem Window.zeroes (h : Window hi m) {i : Nat} (hz : Zeroes m i m') :
    m.firstFree = some i ∧ m' = m := by
  cases hz with
  | plain hf _ => exact ⟨hf, rfl⟩
  | @special n j m₁ hf h3 hc _ =>
      obtain ⟨hlt, hun, -⟩ := firstFree_some hf
      obtain ⟨t, ht⟩ := Option.ne_none_iff_exists'.mp (h.special_covered hf h3)
      have hsame : (m.setMap i 1).tableOf (mapNr (frameAddr (i + 2)) / 1024) = some t := by
        rw [special_block h3 hlt]
        exact ht
      cases n with
      | zero =>
          rw [createPageTable] at hc
          cases hc
      | succ n =>
          rw [createPageTable, tableEntry_present hsame, if_pos rfl] at hc
          cases hc
          exact ⟨hf, setMap_unused hun⟩

/-- **Entries.** The kernel window is well formed whenever `get_free_page` is entered. -/
theorem Enters.window {c : Activity} (he : Enters c m m₁) (h : Window hi m) : Window hi m₁ := by
  induction he with
  | here => exact h
  | @special m m₁ i hf h3 he _ =>
      -- there is a page table: it is not made
      obtain ⟨t, ht⟩ := Option.ne_none_iff_exists'.mp (h.special_covered hf h3)
      refine absurd (tableEntry_present (m := m.setMap i 1) (t := t) ?_) he.absent
      rw [special_block h3 (firstFree_some hf).1]
      exact ht
  | zeroing hz _ ih =>
      obtain ⟨-, rfl⟩ := h.zeroes hz
      exact ih h
  | fault _ _ ih => exact ih h
  | newTable _ _ ih => exact ih h
  | table _ _ ih => exact ih h
  | @tableAgain m m' m₁ addr n r _ hr _ ih =>
      rcases h.createPageTable_result hr with ⟨-, rfl, -⟩ | hT
      · exact ih h
      · exact ih (hT.window h (block_lt addr))
  | noPageTable _ ih => exact ih h
  | @noPage m m' m₁ addr n hr _ _ ih =>
      exact ih ((h.needTable_result hr).window h (block_lt addr))
  | copy _ _ ih => exact ih h
  | fromTable _ _ ih => exact ih h
  | fromTableAgain _ hr _ ih => exact ih ((h.doNoPage_result hr).window_kept h)
  | fromPage _ _ ih => exact ih h
  | fromPageAgain _ hr _ ih => exact ih ((h.doNoPage_result hr).window_kept h)
  | shareTable _ ih => exact ih h
  | sharePage hr _ ih => exact ih (h.needFromTable_window hr)
  | shareTo hr hr' _ ih => exact ih ((h.needFromTable_window hr).needFromPage_window hr')

/-! ## What an entry leads to -/

/-- `get_free_page`, entered in state `m`, returns, and when it clears a frame there is a page table
for the frame's address. -/
structure Returns (m : Mem) : Prop where
  table : ∀ i m', Zeroes m i m' → present (m'.tableEntry (frameAddr i)) = true
  returns : ∃ n r, getFreePage n m = some r

/-- The kernel reaches the first free frame: it lies below 32MB, or a page table for its block has
been made before. -/
def Reachable (m : Mem) : Prop := ∀ i, m.firstFree = some i → i < 8192 ∨ m.Covered i

theorem Window.returns_iff (h : Window hi m) : Returns m ↔ Reachable m := by
  have hcov : Reachable m ↔ ∀ i, m.firstFree = some i → m.Covered i := by
    constructor
    · exact fun hr i hf => (hr i hf).elim h.covered_low id
    · exact fun hr i hf => .inr (hr i hf)
  rw [hcov, ← h.getFreePage_returns]
  constructor
  · exact Returns.returns
  · intro hret
    refine ⟨fun i m' hz => ?_, hret⟩
    obtain ⟨hf, rfl⟩ := h.zeroes hz
    obtain ⟨t, ht⟩ := Option.ne_none_iff_exists'.mp (h.getFreePage_returns.mp hret i hf)
    have hlt := (firstFree_some hf).1
    refine tableEntry_present (t := t) ?_
    rw [mapNr_frameAddr (lt_frames hlt)]
    exact ht

/-- With at most 32MB of memory the kernel reaches every free frame. -/
theorem Window.reachable_of_le (h : Window hi m) (hle : hi ≤ 8192) : Reachable m := by
  intro i hf
  obtain ⟨hlt, hun, -⟩ := firstFree_some hf
  refine .inl ?_
  by_contra hge
  exact h.used i (.inr (.inl ⟨by omega, hlt⟩)) hun

/-! ## Runs -/

/-- The kernel window after `setup_paging` and `mem_init`. -/
theorem memInit_window {image : Mem} {memSize : Word} (hb : Bare image)
    (h : memInit (setupPaging image) (mainMemory memSize).1 (mainMemory memSize).2 = some m) :
    Window (mainFrames memSize).hi m := by
  obtain ⟨hphys, hmap⟩ := memInit_memMap h
  have hfresh := memInit_fresh hb h
  have hp := hfresh.paged
  have hlo := (mainFrames memSize).lo_ge
  have hlo' := (mainFrames memSize).lo_le
  have htable : ∀ d < 1024, m.tableOf d = if d < 8 then some (8 + d) else none := by
    intro d hd
    have hT : m.tableOf = (setupPaging image).tableOf := tableOf_congr (by rw [hphys])
    rw [hT]
    split_ifs with h8
    · exact setupPaging_table image h8
    · exact setupPaging_bare hb (by omega) hd
  have hsome : ∀ d < 1024, ∀ t, m.tableOf d = some t → d < 8 ∧ t = 8 + d := by
    intro d hd t ht
    rw [htable d hd] at ht
    split_ifs at ht with h8
    exact ⟨h8, (Option.some.inj ht).symm⟩
  have hframe : ∀ n < 1048576, ∀ f, m.frameOf n = some f → n < 8192 ∧ f = n := by
    intro n hn f hf
    obtain ⟨t, ht⟩ := tableOf_of_frameOf hf
    have hlow : n < 8192 := by
      have := (hsome (n / 1024) (by omega) t ht).1
      omega
    rw [hp.kernelPage hlow] at hf
    exact ⟨hlow, (Option.some.inj hf).symm⟩
  have hused : ∀ f, ¬ (mainFrames memSize).Has f → f < PAGING_PAGES → m.memMap f ≠ UNUSED := by
    intro f hno hlt
    rw [hmap, if_neg hno, if_pos hlt]
    decide
  -- the frames of `setup_paging` are below the main memory
  have hlow : ∀ f < 16, m.memMap f ≠ UNUSED := by
    intro f hf
    refine hused f (fun hm => ?_) (by unfold PAGING_PAGES; omega)
    have := hm.1
    omega
  constructor
  case kernelTable => exact hp.kernelTable
  case kernelPage => exact fun n hn => hp.kernelPage hn
  case identity => exact fun n hn f hf => (hframe n (by omega) f hf).2
  case table =>
    intro d h8 hd t ht
    have := (hsome d hd t ht).1
    omega
  case inj => exact hp.tables.inj
  case reached =>
    intro d hd t ht
    obtain ⟨h8, rfl⟩ := hsome d hd t ht
    exact ⟨by omega, hp.kernelPage (by omega)⟩
  case used =>
    rintro f (hf | ⟨hge, hlt⟩ | ⟨d, hd, ht⟩)
    · exact hlow f hf
    · exact hused f (fun hm => absurd hm.2 (by omega)) hlt
    · obtain ⟨h8, rfl⟩ := hsome d hd f ht
      exact hlow _ (by omega)
  case page =>
    intro n hn f hf
    obtain ⟨hlow, rfl⟩ := hframe n hn f hf
    exact ⟨by unfold PAGING_PAGES; omega, covered_of_frameOf hf⟩
  case untouched =>
    intro f hge hlt _
    constructor
    · intro hun
      by_contra hno
      exact hused f (fun hm => absurd hm.2 (by omega)) hlt hun
    · exact fun hlt' => hfresh.free f ⟨by omega, hlt'⟩

/-- Where the main memory ends. -/
theorem mainFrames_hi {image : Mem} {memSize : Word}
    (h : memInit image (mainMemory memSize).1 (mainMemory memSize).2 = some m) :
    (mainFrames memSize).hi = (mainMemory memSize).2.toNat / 4096 := by
  obtain ⟨hs, hlt⟩ := mainMemory_aligned memSize
  have he := mainMemory_end memSize
  have hsize : 0x100000 ≤ memSize.toNat := by
    by_contra hno
    have hnone := memInitLoops_none image (Nat.lt_of_not_le hno)
    rw [memInitLoops_eq image (le_trans hlt (by decide)), h] at hnone
    cases hnone
  have hse := (mainMemory_le memSize).mpr hsize
  unfold mainFrames
  simp only [mapNr_eq ((mainMemory memSize).2 - _), BitVec.toNat_sub]
  unfold PAGING_PAGES
  omega

/-- **Allocation returns.** In every run from `setup_paging` and `mem_init` whose calls are proper,
every entry of `get_free_page` returns, and its loop finds a page table, if and only if the kernel
reaches the first free frame; which is always so with at most 32MB of memory. -/
theorem allocation_returns {image : Mem} {memSize : Word} {tr : List (Mem × AllocCall × Mem)}
    {c : AllocCall} (hb : Bare image)
    (h₀ : memInit (setupPaging image) (mainMemory memSize).1 (mainMemory memSize).2 = some m₀)
    (hr : Run AllocStep m₀ tr m) (hc : ∀ t ∈ tr, t.2.1.Proper t.1)
    (he : Enters c.activity m m₁) :
    (Returns m₁ ↔ Reachable m₁) ∧ ((mainMemory memSize).2.toNat ≤ 0x2000000 → Returns m₁) := by
  have h₁ := he.window (run_window (memInit_window hb h₀) hr hc)
  refine ⟨h₁.returns_iff, fun hle => h₁.returns_iff.mpr (h₁.reachable_of_le ?_)⟩
  rw [mainFrames_hi h₀]
  omega

/-! ## More than 32MB -/

/-- `get_free_page` uses up the memory below 32MB. -/
theorem Window.exhaust (h : Window hi m) (h8 : m.tableOf 8 = none) :
    ∃ tr m', Run AllocStep m tr m' ∧ (∀ t ∈ tr, t.2.1 = .getFreePage) ∧ Window hi m' ∧
      m'.tableOf 8 = none ∧ ∀ f < 8192, m'.memMap f ≠ UNUSED := by
  -- by induction on the number of free frames below 32MB
  generalize hk : ((Finset.range 8192).filter fun f => m.memMap f = UNUSED).card = k
  induction k using Nat.strong_induction_on generalizing m with
  | _ k ih =>
      by_cases hall : ∀ f < 8192, m.memMap f ≠ UNUSED
      · exact ⟨[], m, .nil, by simp, h, h8, hall⟩
      obtain ⟨f, hf, hun⟩ : ∃ f < 8192, m.memMap f = UNUSED := by simpa using hall
      obtain ⟨i, hi', hfree⟩ := (Free.mk hf hun).firstFree
      have hcov := h.covered_low hfree.lt
      have hlt := hfree.lt_pages
      have hstep : AllocStep m .getFreePage (m.grab i) :=
        ⟨4, by rw [AllocCall.exec, getFreePage_covered hi' hcov 0]; rfl⟩
      have hless : ((Finset.range 8192).filter fun f => (m.grab i).memMap f = UNUSED).card < k := by
        rw [← hk]
        refine Finset.card_lt_card (Finset.ssubset_iff_of_subset ?_ |>.mpr ⟨i, ?_, ?_⟩)
        · intro g hg
          obtain ⟨hg, hgu⟩ := Finset.mem_filter.mp hg
          refine Finset.mem_filter.mpr ⟨hg, ?_⟩
          rw [grab_memMap] at hgu
          by_cases hgi : g = i
          · rw [hgi]
            exact hfree.unused
          · rwa [Function.update_of_ne hgi] at hgu
        · exact Finset.mem_filter.mpr ⟨Finset.mem_range.mpr hfree.lt, hfree.unused⟩
        · intro hg
          have hgu := (Finset.mem_filter.mp hg).2
          rw [grab_memMap, Function.update_self] at hgu
          cases hgu
      have hT := h.grab_tableOf hfree.unused hlt hcov
      obtain ⟨tr, m', hr, hget, hw⟩ := ih _ hless (h.grab hfree.unused hlt hcov) (by rw [hT, h8]) rfl
      refine ⟨_, m', (Run.nil.snoc hstep).append hr, ?_, hw⟩
      intro t ht
      simp only [List.nil_append, List.singleton_append, List.mem_cons] at ht
      rcases ht with rfl | ht
      · rfl
      · exact hget t ht

theorem memInit_bare {image : Mem} {memSize : Word} (hb : Bare image)
    (h : memInit (setupPaging image) (mainMemory memSize).1 (mainMemory memSize).2 = some m) {d : Nat}
    (hd : 8 ≤ d) (hd' : d < 1024) : m.tableOf d = none := by
  rw [tableOf_congr (m := setupPaging image) (by rw [(memInit_memMap h).1])]
  exact setupPaging_bare hb hd hd'

/-- A machine with 64MB after `setup_paging` and `mem_init`. -/
theorem memInit_large : ∃ m₀, memInit (setupPaging emptyImage) (mainMemory 0x4000000).1
    (mainMemory 0x4000000).2 = some m₀ ∧ Window 16384 m₀ ∧ ∃ i < 8192, m₀.firstFree = some i := by
  obtain ⟨m₀, h₀⟩ : ∃ m₀, memInit (setupPaging emptyImage) (mainMemory 0x4000000).1
      (mainMemory 0x4000000).2 = some m₀ := by
    rw [memInit]
    exact ⟨_, if_pos (by decide)⟩
  have hw := memInit_window emptyImage_bare h₀
  rw [mainFrames_hi h₀] at hw
  have hfree := (memInit_fresh emptyImage_bare h₀).free 1024 (by decide)
  obtain ⟨i, hi, hlow⟩ := (Free.mk (by decide) hfree).firstFree
  exact ⟨m₀, h₀, hw, i, hlow.lt, hi⟩

/-- The first call of `get_free_page` returns. -/
theorem allocation_returns_first : ∃ m₀, memInit (setupPaging emptyImage)
    (mainMemory 0x4000000).1 (mainMemory 0x4000000).2 = some m₀ ∧ Returns m₀ := by
  obtain ⟨m₀, h₀, -, i, hlow, hi⟩ := memInit_large
  refine ⟨m₀, h₀, (allocation_returns (c := .getFreePage) emptyImage_bare h₀ .nil
    (fun t ht => absurd ht List.not_mem_nil) .here).1.mpr fun j hj => .inl ?_⟩
  rw [hi] at hj
  exact Option.some.inj hj ▸ hlow

/-- On a machine with 64MB `get_free_page` gives away the frames below 32MB and then does not
return: there is no page table for frame 8192, which it is about to clear. -/
theorem endless : ∃ m₀ tr m, memInit (setupPaging emptyImage) (mainMemory 0x4000000).1
    (mainMemory 0x4000000).2 = some m₀ ∧ Run AllocStep m₀ tr m ∧
    (∀ t ∈ tr, t.2.1 = .getFreePage) ∧ Enters AllocCall.getFreePage.activity m m ∧
    Zeroes m 8192 m ∧ present (m.tableEntry (frameAddr 8192)) = false ∧
    ∀ n, getFreePage n m = none := by
  obtain ⟨m₀, h₀, hw, -⟩ := memInit_large
  obtain ⟨tr, m, hr, hget, hwm, h8m, hfull⟩ :=
    hw.exhaust (memInit_bare emptyImage_bare h₀ le_rfl (by decide))
  have hno : ¬ m.Covered 8192 := not_not.mpr h8m
  have hun : m.memMap 8192 = UNUSED :=
    (hwm.untouched 8192 le_rfl (by decide) hno).mpr (by decide)
  have hff : m.firstFree = some 8192 := firstFree_eq (by decide) hun hfull
  refine ⟨m₀, tr, m, h₀, hr, hget, .here, .plain hff (by decide), ?_, ?_⟩
  · refine tableEntry_absent ?_
    rw [mapNr_frameAddr (by decide)]
    exact h8m
  · exact hwm.getFreePage_uncovered hff hno

end Mks.Mem
