import Mks.Memory.Mmu
import Mks.Memory.SharePage
import Mathlib.Data.Finset.Card
import Mathlib.Data.Finset.Image
import Mathlib.Order.Interval.Finset.Nat

set_option autoImplicit false

/-! # The pages that `share_multi_pages` maps

Page by page the loop of `share_multi_pages` gives the pages `to` the frames of the pages `from`. A
page that has been shared is in none of the later iterations, as the ranges do not overlap; so the
result of each iteration is still there in the end (`Window.sharePages_result`). The call returns
when the free frames that it needs (`rangeNeed`) are within reach of the kernel.

Outside the two ranges no page changes (`shareMultiPages_range`) but those of the kernel window that
belong to frames the call has taken: the kernel maps them when it clears the frames.
-/

namespace Mks.Mem

variable {m m' m₁ m₂ : Mem} {a b : Word} {n f k : Nat}

/-! ## The loop -/

/-- The pages of the two ranges. -/
def ranges (p q amount : Nat) : Set Nat := Set.Ico p (p + amount) ∪ Set.Ico q (q + amount)

theorem mem_ranges {p q amount : Nat} : n ∈ ranges p q amount ↔
    (p ≤ n ∧ n < p + amount) ∨ (q ≤ n ∧ n < q + amount) := Iff.rfl

section
variable {p q amount : Nat}

/-- The two pages of the first iteration. -/
theorem pair_subset_ranges : ({p, q} : Set Nat) ⊆ ranges p q (amount + 1) := by
  rintro n (rfl | rfl)
  · exact mem_ranges.mpr (.inl ⟨le_rfl, by omega⟩)
  · exact mem_ranges.mpr (.inr ⟨le_rfl, by omega⟩)

theorem ranges_subset_succ : ranges (p + 1) (q + 1) amount ⊆ ranges p q (amount + 1) := by
  intro n hn
  rw [mem_ranges] at hn ⊢
  omega

/-- The remaining pages `to`. -/
theorem Iteration.targets (hit : Iteration a b amount m m')
    (hto : ∀ i < amount + 1, 16384 ≤ mapNr b + i ∨ m.memMap (mapNr b + i) ≠ UNUSED) :
    ∀ i < amount, 16384 ≤ mapNr b + 1 + i ∨ m'.memMap (mapNr b + 1 + i) ≠ UNUSED := by
  intro i hi
  have hi := hto (i + 1) (by omega)
  rw [show mapNr b + 1 + i = mapNr b + (i + 1) by omega]
  exact hi.imp_right (hit.grows.used _)

theorem Regular.sharePages_result (h : Regular m) (hR : m.Held)
    (ha : 0 < amount → mapNr a = p) (hb : 0 < amount → mapNr b = q) (hp : p + amount ≤ 1048576)
    (hq : q + amount ≤ 1048576) (hto : ∀ i < amount, 16384 ≤ q + i ∨ m.memMap (q + i) ≠ UNUSED)
    (hdis : p + amount ≤ q ∨ q + amount ≤ p) (hroom : m.Room p amount)
    (hr : sharePages k amount m a b = some m') :
    Grows (ranges p q amount) m m' ∧ ∀ i < amount, SharedAs m (p + i) (q + i) m' := by
  induction amount generalizing m a b p q with
  | zero =>
      rw [sharePages] at hr
      obtain rfl := Option.some.inj hr
      exact ⟨.refl _ m, fun i hi => absurd hi (Nat.not_lt_zero i)⟩
  | succ amount ih =>
      rw [sharePages] at hr
      obtain ⟨m₁, hm₁, hrest⟩ := Option.bind_eq_some_iff.mp hr
      obtain rfl := ha (Nat.succ_pos _)
      obtain rfl := hb (Nat.succ_pos _)
      have hit := h.sharePage_iteration hR hroom (hto 0 (Nat.succ_pos _)) hp (by omega) hm₁
      obtain ⟨hg, hS⟩ := ih hit.regular hit.held (fun _ => mapNr_next (by omega))
        (fun _ => mapNr_next (by omega)) (by omega) (by omega) (hit.targets hto) (by omega) hit.room
        hrest
      refine ⟨(hit.grows.mono pair_subset_ranges).trans (hg.mono ranges_subset_succ),
        fun i hi => ?_⟩
      cases i with
      | zero =>
          refine hit.shared.mono hg (mapNr_lt a) (mapNr_lt b) ?_ ?_
          · rw [mem_ranges]
            omega
          · rw [mem_ranges]
            omega
      | succ i =>
          have hno : mapNr a + 1 + i ∉ ({mapNr a, mapNr b} : Set Nat) := by
            rintro (he | he)
            · omega
            · have he : mapNr a + 1 + i = mapNr b := he
              omega
          have hS' := (hS i (by omega)).after hit.grows (by omega) hno
          rwa [show mapNr a + 1 + i = mapNr a + (i + 1) by omega,
            show mapNr b + 1 + i = mapNr b + (i + 1) by omega] at hS'

end

/-! ## The frames that the call takes -/

/-- The blocks of 4MB of `amount` pages from page `p` on. -/
def blocks (p amount : Nat) : Finset Nat := (Finset.Ico p (p + amount)).image (· / 1024)

/-- The pages `from` that take a free frame: a new one for a page of a process, its own for one of
the window. -/
def TakesFrame (m : Mem) (n : Nat) : Prop :=
  16384 ≤ n ∧ m.frameOf n = none ∨ n < 16384 ∧ m.memMap n = UNUSED

instance (m : Mem) : DecidablePred m.TakesFrame := fun _ => inferInstanceAs (Decidable (_ ∨ _))

/-- The frames that `share_multi_pages` takes: page tables, and those of the pages `from`. -/
def rangeNeed (m : Mem) (p q amount : Nat) : Nat :=
  ((blocks p amount ∪ blocks q amount).filter fun d => m.tableOf d = none).card +
    (List.range' p amount).countP m.TakesFrame

theorem blocks_succ (p amount : Nat) :
    blocks p (amount + 1) = insert (p / 1024) (blocks (p + 1) amount) := by
  have hIco : Finset.Ico p (p + (amount + 1)) = insert p (Finset.Ico (p + 1) (p + 1 + amount)) := by
    ext n
    rw [Finset.mem_insert, Finset.mem_Ico, Finset.mem_Ico]
    omega
  rw [blocks, hIco, Finset.image_insert, blocks]

/-- The blocks without a page table, one block after the other. -/
theorem card_filter_insert (P : Nat → Prop) [DecidablePred P] (s : Finset Nat) (d : Nat) :
    ((insert d s).filter P).card
      = (if P d then 1 else 0) + (s.filter fun e => P e ∧ e ≠ d).card := by
  have hd : d ∉ s.filter fun e => P e ∧ e ≠ d := fun hd => (Finset.mem_filter.mp hd).2.2 rfl
  by_cases hP : P d
  · have hset : (insert d s).filter P = insert d (s.filter fun e => P e ∧ e ≠ d) := by
      ext e
      by_cases hed : e = d
      · simp [hed, hP]
      · simp [hed]
    rw [hset, Finset.card_insert_of_notMem hd, if_pos hP, Nat.add_comm]
  · have hset : (insert d s).filter P = s.filter fun e => P e ∧ e ≠ d := by
      ext e
      by_cases hed : e = d
      · simp [hed, hP]
      · simp [hed]
    rw [hset, if_neg hP, Nat.zero_add]

section
variable {amount : Nat}

theorem takesFrame_card (m : Mem) (a : Word) :
    (if m.TakesFrame (mapNr a) then 1 else 0) = m.pageNeed a + m.ownNeed (mapNr a) := by
  by_cases ha : mapNr a < 16384
  · have hiff : m.TakesFrame (mapNr a) ↔ mapNr a < 16384 ∧ m.memMap (mapNr a) = UNUSED :=
      or_iff_right fun h => absurd h.1 (by omega)
    have hpage : m.pageNeed a = 0 := if_pos (.inl ((lt_window a).mpr ha))
    rw [hpage, Nat.zero_add, ownNeed]
    exact if_congr hiff rfl rfl
  · have hiff : m.TakesFrame (mapNr a) ↔ m.frameOf (mapNr a) = none :=
      (or_iff_left fun h => ha h.1).trans (and_iff_right (by omega))
    have hown : m.ownNeed (mapNr a) = 0 := if_neg fun h => ha h.1
    have hpage : m.pageNeed a = if m.frameOf (mapNr a) = none then 1 else 0 := by
      have hwin : ¬ a < WINDOW := fun h => ha ((lt_window a).mp h)
      rw [pageNeed, ← ite_not]
      exact if_congr (by simp [hwin]) rfl rfl
    rw [hown, hpage, Nat.add_zero]
    exact if_congr hiff rfl rfl

/-- What the first iteration takes, and the rest. -/
theorem rangeNeed_succ (m : Mem) (a b : Word) (amount : Nat) :
    m.rangeNeed (mapNr a) (mapNr b) (amount + 1) = m.shareNeed a b + (m.ownNeed (mapNr a) +
      (((blocks (mapNr a + 1) amount ∪ blocks (mapNr b + 1) amount).filter fun e =>
          (m.tableOf e = none ∧ e ≠ mapNr a / 1024) ∧ e ≠ mapNr b / 1024).card +
        (List.range' (mapNr a + 1) amount).countP m.TakesFrame)) := by
  have hb : (if m.tableOf (mapNr b / 1024) = none ∧ mapNr b / 1024 ≠ mapNr a / 1024 then 1 else 0)
      = if mapNr b / 1024 = mapNr a / 1024 then 0 else m.tableNeed (mapNr b / 1024) := by
    unfold tableNeed
    split_ifs <;> first | rfl | tauto
  have hown := takesFrame_card m a
  rw [rangeNeed, blocks_succ, blocks_succ, Finset.insert_union, Finset.union_insert,
    card_filter_insert, card_filter_insert, hb, List.range'_succ, List.countP_cons, shareNeed,
    ← tableNeed]
  simp only [decide_eq_true_eq] at hown ⊢
  omega

theorem Iteration.rangeNeed_le (hit : Iteration a b amount m m')
    (ha : mapNr a + (amount + 1) ≤ 1048576)
    (hab : mapNr b < mapNr a ∨ mapNr a + amount < mapNr b) :
    m.shareNeed a b + (m.ownNeed (mapNr a) + m'.rangeNeed (mapNr a + 1) (mapNr b + 1) amount)
      ≤ m.rangeNeed (mapNr a) (mapNr b) (amount + 1) := by
  rw [rangeNeed_succ, rangeNeed]
  have htab : ((blocks (mapNr a + 1) amount ∪ blocks (mapNr b + 1) amount).filter fun e =>
        m'.tableOf e = none).card
      ≤ ((blocks (mapNr a + 1) amount ∪ blocks (mapNr b + 1) amount).filter fun e =>
        (m.tableOf e = none ∧ e ≠ mapNr a / 1024) ∧ e ≠ mapNr b / 1024).card :=
    Finset.card_le_card (Finset.monotone_filter_right _ fun e _ => hit.table e)
  have hpages : (List.range' (mapNr a + 1) amount).countP m'.TakesFrame
      ≤ (List.range' (mapNr a + 1) amount).countP m.TakesFrame := by
    refine List.countP_mono_left fun n hn ht => ?_
    have hrange := List.mem_range'_1.mp hn
    have hno : n ∉ ({mapNr a, mapNr b} : Set Nat) := by
      rintro (he | he)
      · omega
      · have he : n = mapNr b := he
        omega
    refine decide_eq_true ((of_decide_eq_true ht).imp ?_ ?_)
    · rintro ⟨hge, habs⟩
      refine ⟨hge, ?_⟩
      rw [frameOf, ← hit.grows.pte_process (by omega) hno hge]
      exact habs
    · rintro ⟨hlow, hun⟩
      exact ⟨hlow, hit.grows.unused hun⟩
  omega

theorem sharePage_mono {k' : Nat} (hr : sharePage k m a b = some m') (hk : k ≤ k') :
    sharePage k' m a b = some m' := by
  rw [sharePage] at hr ⊢
  obtain ⟨m₁, hr₁, hr⟩ := Option.bind_eq_some_iff.mp hr
  obtain ⟨m₂, hr₂, hr⟩ := Option.bind_eq_some_iff.mp hr
  obtain ⟨m₃, hr₃, he⟩ := Option.map_eq_some_iff.mp hr
  rw [needFromTable_mono hr₁ hk, Option.bind_some, needFromPage_mono hr₂ hk, Option.bind_some,
    needTable_mono hr₃ hk, Option.map_some, he]

theorem sharePages_mono {k' : Nat} (hr : sharePages k amount m a b = some m') (hk : k ≤ k') :
    sharePages k' amount m a b = some m' := by
  induction amount generalizing m a b with
  | zero => exact hr
  | succ amount ih =>
      rw [sharePages] at hr ⊢
      obtain ⟨m₁, hm₁, hrest⟩ := Option.bind_eq_some_iff.mp hr
      rw [sharePage_mono hm₁ hk, Option.bind_some]
      exact ih hrest

theorem Regular.sharePages_returns {p q : Nat} (h : Regular m) (hR : m.Held)
    (ha : 0 < amount → mapNr a = p) (hb : 0 < amount → mapNr b = q) (hp : p + amount ≤ 1048576)
    (hq : q + amount ≤ 1048576) (hto : ∀ i < amount, 16384 ≤ q + i ∨ m.memMap (q + i) ≠ UNUSED)
    (hdis : p + amount ≤ q ∨ q + amount ≤ p) (hroom : m.Room p amount)
    (hs : m.stock.Lasts (m.rangeNeed p q amount)) :
    ∃ k m', sharePages k amount m a b = some m' := by
  induction amount generalizing m a b p q with
  | zero => exact ⟨0, m, rfl⟩
  | succ amount ih =>
      obtain rfl := ha (Nat.succ_pos _)
      obtain rfl := hb (Nat.succ_pos _)
      have hfirst : m.stock.Lasts (m.shareNeed a b + 0) := by
        rw [rangeNeed_succ] at hs
        exact hs.mono (by omega)
      obtain ⟨hm, ht, -⟩ := lasts_share hfirst
      obtain ⟨k, m₁, hm₁⟩ := h.sharePage_returns.mpr ⟨hm, ht⟩
      have hit := h.sharePage_iteration hR hroom (hto 0 (Nat.succ_pos _)) hp (by omega) hm₁
      have hs₁ := hit.lasts _ (hs.mono (hit.rangeNeed_le hp (by omega)))
      obtain ⟨k', m', hrest⟩ := ih hit.regular hit.held (fun _ => mapNr_next (by omega))
        (fun _ => mapNr_next (by omega)) (by omega) (by omega) (hit.targets hto) (by omega) hit.room
        hs₁
      -- one bound for all iterations
      refine ⟨k + k', m', ?_⟩
      rw [sharePages, sharePage_mono hm₁ (by omega), Option.bind_some]
      exact sharePages_mono hrest (by omega)

end

/-- The pages of the window that the kernel uses itself: those of its code and variables, of the page
tables, and of the frames that it clears. -/
def KernelUses (m : Mem) (n : Nat) : Prop :=
  n < 160 ∨ m.memMap n = UNUSED ∨ ∃ d < 1024, m.tableOf d = some n

/-- **Sharing a range maps exactly that range.** -/
theorem shareMultiPages_range (h : Direct m) (hR : m.Held) {fromAddr toAddr : Word}
    {amount : Nat} (hfa : fromAddr &&& 0xFFF = 0) (hta : toAddr &&& 0xFFF = 0)
    (hfrom : mapNr fromAddr + amount ≤ 1048576) (hto : mapNr toAddr + amount ≤ 1048576)
    (hdis : mapNr fromAddr + amount ≤ mapNr toAddr ∨ mapNr toAddr + amount ≤ mapNr fromAddr)
    (hker : ∀ i < amount, 16384 ≤ mapNr toAddr + i ∨ ¬ m.KernelUses (mapNr toAddr + i))
    (hroom : m.Room (mapNr fromAddr) amount) :
    (m.stock.Lasts (m.rangeNeed (mapNr fromAddr) (mapNr toAddr) amount) →
      ∃ k m', shareMultiPages k m fromAddr toAddr amount = some (1, m')) ∧
    ∀ k r m', shareMultiPages k m fromAddr toAddr amount = some (r, m') → r = 1 ∧
      (∀ i < amount, SharedAs m (mapNr fromAddr + i) (mapNr toAddr + i) m') ∧
      ∀ n < 1048576, n ∉ ranges (mapNr fromAddr) (mapNr toAddr) amount → m'.pte n = m.pte n ∨
        n < 16384 ∧ m.frameOf n = none ∧ m.memMap n = UNUSED ∧
          m'.frameOf n = some n ∧ m'.memMap n ≠ UNUSED := by
  have htarget : ∀ i < amount, 16384 ≤ mapNr toAddr + i ∨ m.memMap (mapNr toAddr + i) ≠ UNUSED :=
    fun i hi => (hker i hi).imp_right fun hno hun => hno (.inr (.inl hun))
  have haligned : ¬ (fromAddr &&& 0xFFF ≠ 0 ∨ toAddr &&& 0xFFF ≠ 0) := by
    rintro (hne | hne)
    · exact hne hfa
    · exact hne hta
  constructor
  · intro hs
    obtain ⟨k, m', hr⟩ := h.toRegular.sharePages_returns hR (fun _ => rfl) (fun _ => rfl) hfrom hto
      htarget hdis hroom hs
    refine ⟨k, m', ?_⟩
    rw [shareMultiPages, if_neg haligned, hr, Option.map_some]
  · intro k r m' hr
    rw [shareMultiPages, if_neg haligned] at hr
    obtain ⟨m₁, hm₁, he⟩ := Option.map_eq_some_iff.mp hr
    obtain ⟨rfl, rfl⟩ := Prod.mk.inj he
    obtain ⟨hg, hS⟩ := h.toRegular.sharePages_result hR (fun _ => rfl) (fun _ => rfl) hfrom hto
      htarget hdis hroom hm₁
    exact ⟨rfl, hS, hg.pte⟩

/-! ### The call of `proc_init` -/

/-- Only the pages of `setup_paging` are mapped. -/
def Plain (m : Mem) : Prop := ∀ d, 8 ≤ d → d < 1024 → m.tableOf d = none

theorem Plain.low (h : m.Plain) (hn : n < 1048576) (hf : m.frameOf n = some f) : n < 8192 := by
  by_contra hge
  rw [frameOf_none (h (n / 1024) (by omega) (by omega))] at hf
  cases hf

theorem Plain.held {hi : Nat} (h : m.Plain) (hw : Window hi m) : m.Held := fun n hn f hf => by
  have hlow := h.low hn hf
  exact .inr ⟨by omega, hw.identity n (by omega) f hf⟩

theorem Window.backing {hi : Nat} (h : Window hi m) (hn : n < 16384) : m.backing n = some n := by
  cases hf : m.frameOf n with
  | some f => rw [backing_mapped hf, h.identity n hn f hf]
  | none => rw [backing_absent hf, if_pos hn]

/-- Each page of the window backs its own frame. -/
theorem Window.room {hi p amount : Nat} (h : Window hi m) (hp : p + amount ≤ 16384)
    (hm : ∀ f, (m.memMap f).toNat < 255) : m.Room p amount := by
  intro f
  have hone : (List.range' p amount).countP (fun n => m.backing n = some f) ≤ 1 := by
    refine countP_backing_le fun n hn hback => ?_
    have hlt := (List.mem_range'_1.mp hn).2
    rw [h.backing (by omega)] at hback
    exact Option.some.inj hback
  have := hm f
  omega

/-- The first free frame is one for a loop. -/
theorem lasts_one {i : Nat} (hf : m.firstFree = some i) (hcov : m.Covered i)
    (h0 : m.memMap 0 ≠ UNUSED) : m.stock.Lasts 1 := by
  have hfree : m.stock.free = i :: (m.setMap i 1).stock.free := stock_free hf rfl
  have hno : 0 ∉ m.stock.free := fun hm => h0 (mem_frees.mp hm).2
  unfold Stock.Lasts
  rw [if_neg hno]
  refine ⟨?_, fun g hg => ?_⟩
  · rw [hfree]
    exact Nat.succ_le_succ (Nat.zero_le _)
  · rw [hfree] at hg
    obtain rfl := List.mem_singleton.mp hg
    exact (stock_covered g).mpr hcov

/-- A machine with 64MB after `setup_paging` and `mem_init`. -/
theorem memInit_plain : ∃ m₀, memInit (setupPaging emptyImage) (mainMemory 0x4000000).1
    (mainMemory 0x4000000).2 = some m₀ ∧ Window 16384 m₀ ∧ m₀.Plain ∧
    (∃ i < 8192, m₀.firstFree = some i) ∧ (∀ f, (m₀.memMap f).toNat < 255) ∧
    m₀.phys 0 = zeroFrame := by
  obtain ⟨m₀, h₀, hw, hf⟩ := memInit_large
  obtain ⟨hphys, hmap⟩ := memInit_memMap h₀
  refine ⟨m₀, h₀, hw, fun d hd hd' => memInit_bare emptyImage_bare h₀ hd hd', hf, fun f => ?_, ?_⟩
  · rw [hmap]
    split_ifs
    · decide
    · decide
    · show (0 : BitVec 8).toNat < 255
      decide
  · rw [hphys]
    rfl

/-- One frame, for the page table of the first process. -/
theorem Window.rangeNeed_init {hi : Nat} (h : Window hi m) {amount : Nat} (ha : amount ≤ 1024)
    (hused : ∀ f < amount, m.memMap f ≠ UNUSED) : m.rangeNeed 0 16384 amount ≤ 1 := by
  have h16 : (blocks 0 amount ∪ blocks 16384 amount).filter (fun d => m.tableOf d = none) ⊆ {16} := by
    intro d hd
    obtain ⟨hd, habs⟩ := Finset.mem_filter.mp hd
    rw [Finset.mem_singleton]
    rcases Finset.mem_union.mp hd with hd | hd
    · obtain ⟨n, hn, rfl⟩ := Finset.mem_image.mp hd
      have hn := (Finset.mem_Ico.mp hn).2
      rw [h.kernelTable _ (by omega)] at habs
      cases habs
    · obtain ⟨n, hn, rfl⟩ := Finset.mem_image.mp hd
      have hn := Finset.mem_Ico.mp hn
      omega
  have hpages : (List.range' 0 amount).countP m.TakesFrame = 0 := by
    rw [List.countP_eq_zero]
    intro n hn ht
    have hlt := (List.mem_range'_1.mp hn).2
    rcases of_decide_eq_true ht with ⟨hge, -⟩ | ⟨-, hun⟩
    · omega
    · exact hused n (by omega) hun
  exact Nat.add_le_add (Finset.card_le_card h16) hpages.le

/-- The first 640KB with the first process. -/
theorem shareMultiPages_range_init : ∃ m₀ k m', memInit (setupPaging emptyImage)
    (mainMemory 0x4000000).1 (mainMemory 0x4000000).2 = some m₀ ∧
    shareMultiPages k m₀ 0 0x4000000 160 = some (1, m') ∧
    ∀ i < 160, SharedAs m₀ (0 + i) (16384 + i) m' := by
  obtain ⟨m₀, h₀, hw, hplain, ⟨j, hlow, hf⟩, hcount, -⟩ := memInit_plain
  have hone := lasts_one hf (hw.covered_low hlow) (hw.used 0 (.inl (by decide)))
  have hneed := hw.rangeNeed_init (by decide : 160 ≤ 1024) fun f hlt => by
    have hlo := (mainFrames 0x4000000).lo_ge
    have hout : ¬ (mainFrames 0x4000000).Has f := fun hin => absurd hin.1 (by omega)
    rw [(memInit_memMap h₀).2, if_neg hout, if_pos (by unfold PAGING_PAGES; omega)]
    decide
  have hto : mapNr 0x4000000 = 16384 := by decide
  obtain ⟨hret, hres⟩ := shareMultiPages_range hw.direct (hplain.held hw)
    (by decide : (0 : Word) &&& 0xFFF = 0) (by decide : (0x4000000 : Word) &&& 0xFFF = 0)
    (by decide : mapNr 0 + 160 ≤ 1048576) (by decide) (.inl (by decide)) (fun i _ => .inl (by omega))
    (hw.room (by decide) hcount)
  obtain ⟨k, m', hr⟩ := hret (hone.mono hneed)
  exact ⟨m₀, k, m', h₀, hr, (hres k 1 m' hr).2.1⟩

/-! ### Pages outside the ranges -/

/-- All frames below 32MB are in use. -/
def lowFull (m : Mem) : Mem := { m with memMap := fun f => if f < 8192 then USED else m.memMap f }

theorem Window.lowFull {hi : Nat} (h : Window hi m) : Window hi m.lowFull := by
  refine h.change rfl (fun _ _ hne => hne) (fun _ _ _ hf => .inl hf) (fun f hf => ?_) fun f hno => ?_
  · show (if f < 8192 then USED else m.memMap f) ≠ UNUSED
    split_ifs
    · decide
    · exact h.used f hf
  · exact if_neg fun hlow => hno (h.covered_low hlow)

theorem lowFull_memMap (m : Mem) (f : Nat) :
    m.lowFull.memMap f = if f < 8192 then USED else m.memMap f := rfl

/-- The call for a mapped page of the window, when it makes a page table. -/
theorem Window.sharePage_link {hi : Nat} (h : Window hi m) {i : Nat} (hf : m.firstFree = some i)
    (hcov : m.Covered i) (ha : a < WINDOW) (hfrom : m.frameOf (mapNr a) = some f)
    (habs : m.tableOf (mapNr b / 1024) = none) :
    ∃ k, sharePage k m a b
      = some ((m.addTable (mapNr b / 1024) i).link (mapNr a) (mapNr b) f) := by
  have hne : m.frameOf (mapNr a) ≠ none := by
    rw [hfrom]
    exact Option.some_ne_none f
  have hmade := HasTable.tableMade (.made habs hf hcov) h
  obtain ⟨k, m', hr⟩ := h.regular.sharePage_iff.mpr ⟨m, .here hne, _, hmade⟩
  refine ⟨k, hr.trans (congrArg some ?_)⟩
  obtain ⟨m₂, m₃, hR, hT, hend⟩ := h.regular.sharePage_result hr
  cases hR with
  | window hno _ _ => exact absurd hno hne
  | page hno _ _ _ => exact absurd hno hne
  | here _ =>
      -- both loops end in the same state
      obtain ⟨k₁, hk₁⟩ := h.regular.needTable_iff.mpr hT
      obtain ⟨k₂, hk₂⟩ := h.regular.needTable_iff.mpr hmade
      have hsame := (needTable_mono hk₁ (Nat.le_add_right k₁ k₂)).symm.trans
        (needTable_mono hk₂ (Nat.le_add_left k₂ k₁))
      have hlow := (lt_window a).mp ha
      rw [hend f hfrom, Option.some.inj hsame, Mem.shareEnd, if_neg (by omega)]

/-- The loop when there is a frame for the page table: `create_page_table`, `get_free_page`, and the
page fault while the frame is cleared. -/
theorem needTable_made {i : Nat} (habs : m.tableOf (mapNr a / 1024) = none)
    (hf : m.firstFree = some i) (hcov : m.Covered i) (hne : frameAddr i ≠ 0) :
    needTable 6 m a = some (m.addTable (mapNr a / 1024) i) := by
  have hc : createPageTable 5 m a = some (1, m.addTable (mapNr a / 1024) i) := by
    rw [createPageTable_absent habs (getFreePage_covered hf hcov 0), if_neg hne]
    rfl
  have ht : (m.addTable (mapNr a / 1024) i).tableOf (mapNr a / 1024) ≠ none := by
    rw [Mem.addTable, tableOf_put, Function.update_self,
      entryFrame_frameAddr (lt_frames (firstFree_some hf).1)]
    exact Option.some_ne_none i
  rw [needTable, tableEntry_absent habs, if_neg (by decide), hc, Option.bind_some]
  exact needTable_here ht 4

/-- The same call, whatever the state of the kernel window. -/
theorem sharePage_made {i : Nat} (hf : m.firstFree = some i) (hcov : m.Covered i)
    (hne : frameAddr i ≠ 0) (ha : a < WINDOW) (hfrom : m.frameOf (mapNr a) ≠ none)
    (habs : m.tableOf (mapNr b / 1024) = none) : ∃ g c v, sharePage 6 m a b
      = some (((m.addTable (mapNr b / 1024) i).setMap g c).put i (mapNr b % 1024) v) := by
  have hlt := (firstFree_some hf).1
  have ht : (m.addTable (mapNr b / 1024) i).tableOf (mapNr b / 1024) = some i := by
    rw [Mem.addTable, tableOf_put, Function.update_self,
      entryFrame_frameAddr (lt_frames hlt)]
  obtain ⟨h₁, h₂⟩ := needFrom_mapped hfrom 5
  generalize hpage : (m.addTable (mapNr b / 1024) i).load (pagePtr (m.tableEntry a) a) = page
  refine ⟨mapNr page, (m.addTable (mapNr b / 1024) i).memMap (mapNr page) + 1, page &&& ~~~2, ?_⟩
  rw [sharePage, h₁, Option.bind_some, h₂, Option.bind_some, needTable_made habs hf hcov hne,
    Option.map_some, hpage]
  simp only [if_neg (BitVec.not_le.mpr ha)]
  generalize m.addTable (mapNr b / 1024) i = m₁ at ht ⊢
  have ht' : (m₁.setMap (mapNr page) (m₁.memMap (mapNr page) + 1)).tableOf (mapNr b / 1024)
      = some i := ht
  rw [store_pagePtr (m₁.setMap _ _) m₁ b _ rfl, Tables.putPte_eq ht']

/-- The same call, when there is a page table. -/
theorem sharePage_ready {t : Nat} (ha : a < WINDOW) (hfrom : m.frameOf (mapNr a) = some f)
    (ht : m.tableOf (mapNr b / 1024) = some t) :
    sharePage 1 m a b = some (m.link (mapNr a) (mapNr b) f) := by
  have hne : m.frameOf (mapNr a) ≠ none := by
    rw [hfrom]
    exact Option.some_ne_none f
  obtain ⟨h₁, h₂⟩ := needFrom_mapped hne 0
  obtain ⟨ta, hta⟩ := tableOf_of_frameOf hfrom
  have hnr : mapNr (m.pte (mapNr a)) = f := (entryFrame_some hfrom).2
  rw [sharePage, h₁, Option.bind_some, h₂, Option.bind_some, needTable, tableEntry_present ht,
    if_pos rfl, Option.map_some]
  simp only [if_neg (BitVec.not_le.mpr ha), load_pagePtr hta, hnr]
  rw [store_pagePtr (m.setMap _ _) m b _ rfl]
  rfl

/-- A machine with 64MB when the frames below 32MB are all in use. There is a page table for the
window from 32MB on, but no page of it is mapped. -/
structure Full (m : Mem) : Prop where
  window : Window 16384 m
  next : m.firstFree = some 8192
  covered : m.Covered 8192
  unmapped : m.frameOf 8192 = none
  bare : ∀ d, 9 ≤ d → d < 1024 → m.tableOf d = none
  low : ∀ f < 8192, m.memMap f = USED
  high : ∀ f, 8192 ≤ f → f < 16384 → m.memMap f = UNUSED
  count : ∀ f, (m.memMap f).toNat < 255
  mapped : ∀ n < 1048576, ∀ f, m.frameOf n = some f → f < 8192
  zero : m.phys 0 = zeroFrame
  unlinked : Unlinked m 0

theorem full_machine : ∃ m, Full m := by
  obtain ⟨m₀, -, hw, hplain, ⟨i, hlow, hf⟩, hcount, hzero⟩ := memInit_plain
  have hcov := hw.covered_low hlow
  obtain ⟨hlt, hun, -⟩ := firstFree_some hf
  have habs : m₀.tableOf 8 = none := hplain 8 le_rfl (by decide)
  have hne : 8192 ≠ i := by omega
  have hT : (m₀.addTable 8 i).lowFull.tableOf = Function.update m₀.tableOf 8 (some i) :=
    hw.addTable_tableOf hun hlt hcov 8
  have hF : ∀ n < 1048576,
      (m₀.addTable 8 i).lowFull.frameOf n = if n = i then some i else m₀.frameOf n :=
    fun n hn => hw.addTable_frameOf hun hlt hcov habs hn
  have hmap : ∀ f, (m₀.addTable 8 i).lowFull.memMap f
      = if f < 8192 then USED else Function.update m₀.memMap i 1 f := fun f => by
    rw [lowFull_memMap, addTable_memMap]
  have hused : ∀ f < 8192, (m₀.addTable 8 i).lowFull.memMap f = USED := fun f hf => by
    rw [hmap, if_pos hf]
  have hfree : ∀ f, 8192 ≤ f → f < 16384 → (m₀.addTable 8 i).lowFull.memMap f = UNUSED := by
    intro f hge hlt
    rw [hmap, if_neg (by omega), Function.update_of_ne (by omega)]
    exact (hw.untouched f hge hlt (not_not.mpr (hplain _ (by omega) (by omega)))).mpr hlt
  refine ⟨(m₀.addTable 8 i).lowFull, (hw.addTable hun hlt hcov (by decide) habs).lowFull, ?_, ?_,
    ?_, fun d hd hd' => ?_, hused, hfree, fun f => ?_, fun n hn f hnf => ?_, ?_,
    ⟨by decide, fun d hd => ?_⟩⟩
  · exact firstFree_eq (by decide) (hfree 8192 le_rfl (by decide)) fun f hf => by
      rw [hused f hf]
      decide
  · unfold Covered
    rw [hT]
    exact Option.some_ne_none i
  · rw [hF 8192 (by decide), if_neg hne]
    exact frameOf_none habs
  · rw [hT, Function.update_of_ne (by omega)]
    exact hplain d (by omega) hd'
  · rw [hmap, Function.update_apply]
    split_ifs
    · decide
    · decide
    · exact hcount f
  · rw [hF n hn] at hnf
    split_ifs at hnf
    · exact Option.some.inj hnf ▸ hlow
    · have hn' := hplain.low hn hnf
      rw [hw.identity n (by omega) f hnf]
      exact hn'
  · show (m₀.addTable 8 i).phys 0 = zeroFrame
    rw [addTable, put_phys_of_ne (by decide), Unlinked.grab_other hcov hlt ?_ fun d hd ht => ?_, hzero]
    · have := (hw.frame_ne_zero hun hlt).1
      omega
    · rcases Nat.lt_or_ge d 8 with h8 | h8
      · have he := Option.some.inj ((hw.kernelTable d h8).symm.trans ht)
        omega
      · exact Option.some_ne_none _ (ht.symm.trans (hplain d h8 hd))
  · rw [hT, Function.update_apply]
    split_ifs
    · have := (hw.frame_ne_zero hun hlt).1
      exact fun h0 => absurd (Option.some.inj h0) (by omega)
    · rcases Nat.lt_or_ge d 8 with h8 | h8
      · rw [hw.kernelTable d h8]
        exact fun h0 => absurd (Option.some.inj h0) (by omega)
      · rw [hplain d h8 hd]
        exact (Option.some_ne_none 0).symm

theorem Full.used (h : Full m) : ∀ n < 1048576, ∀ f, m.frameOf n = some f → m.memMap f ≠ UNUSED :=
  fun n hn f hnf => by
    rw [h.low f (h.mapped n hn f hnf)]
    decide

/-- The page table for the new pages is in the first frame above 32MB, which the kernel has not used
before. -/
theorem Full.share_maps (h : Full m) : ∃ k m', shareMultiPages k m 0 0x4000000 1 = some (1, m') ∧
    m'.frameOf 8192 = some 8192 := by
  have hw := h.window
  have habs : m.tableOf (mapNr 0x4000000 / 1024) = none := h.bare 16 (by decide) (by decide)
  obtain ⟨hlt, hun, -⟩ := firstFree_some h.next
  obtain ⟨k, hr⟩ := hw.sharePage_link h.next h.covered (by decide : (0 : Word) < WINDOW)
    (hw.kernelPage 0 (by decide)) habs
  refine ⟨k, _, by rw [shareMultiPages, if_neg (by decide), sharePages, hr]; rfl, ?_⟩
  have hF := fun n (hn : n < 1048576) => hw.addTable_frameOf hun hlt h.covered habs hn
  have ht : (m.addTable (mapNr 0x4000000 / 1024) 8192).tableOf (mapNr 0x4000000 / 1024)
      = some 8192 := by
    rw [hw.addTable_tableOf hun hlt h.covered, Function.update_self]
  have h0 : (m.addTable (mapNr 0x4000000 / 1024) 8192).frameOf 0 = some 0 := by
    rw [hF 0 (by decide), if_neg (by decide)]
    exact hw.kernelPage 0 (by decide)
  have hT := (hw.addTable hun hlt h.covered (by decide) habs).tables
  refine (hT.frameOf_link (by decide) ht h0 (by decide)).trans ?_
  rw [if_neg (by decide), hF 8192 (by decide), if_pos rfl]

/-- The first free frame is the same when the page directory has 255 mappings. -/
theorem Full.setMap_firstFree (h : Full m) : (m.setMap 7 255).firstFree = some 8192 := by
  obtain ⟨hlt, hun, hlow⟩ := firstFree_some h.next
  have hmap : ∀ f, f ≠ 7 → (m.setMap 7 255).memMap f = m.memMap f :=
    fun f hf => Function.update_of_ne hf _ _
  refine firstFree_eq hlt ((hmap 8192 (by decide)).trans hun) fun f hf => ?_
  by_cases hf7 : f = 7
  · rw [hf7]
    show Function.update m.memMap 7 255 7 ≠ UNUSED
    rw [Function.update_self]
    decide
  · rw [hmap f hf7]
    exact hlow f hf

/-- One more mapping of the page directory: its counter wraps, and it is the first free frame. -/
theorem Full.share_directory (h : Full m) : ∃ k m₂,
    sharePage k (m.setMap 7 255) 0x7000 0x43FF000 = some m₂ ∧ m₂.firstFree = some 7 ∧
      m₂.Covered 7 ∧ m₂.frameOf (mapNr 0x8000) ≠ none ∧
      m₂.tableOf (mapNr 0x4400000 / 1024) = none := by
  have hw : Window 16384 (m.setMap 7 255) := h.window.setMap (fun _ => by decide)
    (h.window.covered_low (by decide))
  have hff := h.setMap_firstFree
  have hcov : (m.setMap 7 255).Covered 8192 := h.covered
  have hbare : ∀ d, 9 ≤ d → d < 1024 → (m.setMap 7 255).tableOf d = none := h.bare
  have habs := hbare (mapNr 0x43FF000 / 1024) (by decide) (by decide)
  obtain ⟨hlt, hun, -⟩ := firstFree_some hff
  obtain ⟨k, hr⟩ := hw.sharePage_link hff hcov (by decide : (0x7000 : Word) < WINDOW)
    (hw.kernelPage 7 (by decide)) habs
  -- the page table at 64MB
  have hw₁ := hw.addTable hun hlt hcov (by decide) habs
  have hT₁ := hw.addTable_tableOf hun hlt hcov (mapNr 0x43FF000 / 1024)
  have hF₁ := fun n (hn : n < 1048576) => hw.addTable_frameOf hun hlt hcov habs hn
  have hm₁ := addTable_memMap (m.setMap 7 255) (mapNr 0x43FF000 / 1024) 8192
  generalize (m.setMap 7 255).addTable (mapNr 0x43FF000 / 1024) 8192 = m₁ at hr hw₁ hT₁ hF₁ hm₁
  obtain ⟨t, ht₁⟩ : ∃ t, m₁.tableOf (mapNr 0x43FF000 / 1024) = some t :=
    ⟨8192, by rw [hT₁, Function.update_self]⟩
  have h7₁ : m₁.frameOf (mapNr 0x7000) = some 7 := by
    rw [hF₁ _ (by decide), if_neg (by decide)]
    exact hw.kernelPage 7 (by decide)
  -- and the mapping
  have hT₂ := hw₁.tables.tableOf_link (a := mapNr 0x7000) (f := 7)
    (by decide : mapNr 0x43FF000 < 1048576) ht₁
  have hF₂ := hw₁.tables.frameOf_link (by decide : mapNr 0x43FF000 < 1048576) ht₁ h7₁
    (by decide : mapNr 0x8000 < 1048576)
  have hm₂ : (m₁.link (mapNr 0x7000) (mapNr 0x43FF000) 7).memMap
      = Function.update m₁.memMap 7 (m₁.memMap 7 + 1) := rfl
  refine ⟨k, _, hr, firstFree_eq (by decide) ?_ fun f hf => ?_, ?_, ?_, ?_⟩
  · rw [hm₂, Function.update_self, hm₁, Function.update_of_ne (by decide)]
    show Function.update m.memMap 7 255 7 + 1 = UNUSED
    rw [Function.update_self]
    decide
  · rw [hm₂, Function.update_of_ne (by omega), hm₁, Function.update_of_ne (by omega)]
    show Function.update m.memMap 7 255 f ≠ UNUSED
    rw [Function.update_of_ne (by omega), h.low f (by omega)]
    decide
  · unfold Covered
    rw [hT₂, hT₁, Function.update_of_ne (by decide)]
    exact hw.covered_low (by decide)
  · rw [hF₂, if_neg (by decide), hF₁ _ (by decide), if_neg (by decide),
      hw.kernelPage (mapNr 0x8000) (by decide)]
    exact Option.some_ne_none _
  · rw [hT₂, hT₁, Function.update_of_ne (by decide)]
    exact hbare 17 (by decide) (by decide)

/-- When the page directory is the first free frame, the next page table is made in it. -/
theorem sharePage_directory (hf : m.firstFree = some 7) (hcov : m.Covered 7) (ha : a < WINDOW)
    (hfrom : m.frameOf (mapNr a) ≠ none) (habs : m.tableOf (mapNr b / 1024) = none)
    (hd : mapNr b / 1024 ≠ 1) (hw : mapNr b % 1024 ≠ 1) :
    ∃ m', sharePage 6 m a b = some m' ∧ m'.frameOf 1024 = none := by
  obtain ⟨g, c, v, hr⟩ := sharePage_made hf hcov (by decide) ha hfrom habs
  refine ⟨_, hr, frameOf_none ?_⟩
  -- the entry for the block of page 1024
  show entryFrame ((((m.addTable (mapNr b / 1024) 7).setMap g c).put 7 (mapNr b % 1024) v).phys 7 1)
    = none
  rw [put_phys, Function.update_of_ne hw.symm, setMap_phys, addTable, put_phys,
    Function.update_of_ne hd.symm, grab_phys, Function.update_self]
  exact entryFrame_zero

/-- The counter of the page directory wraps: the next page table is made in that frame. -/
theorem Full.share_wraps (h : Full m) : ∃ k m',
    shareMultiPages k (m.setMap 7 255) 0x7000 0x43FF000 2 = some (1, m') ∧
      m'.frameOf 1024 = none := by
  obtain ⟨k, m₂, hr, hff, hcov, hfrom, habs⟩ := h.share_directory
  obtain ⟨m', hr', hnone⟩ := sharePage_directory hff hcov (by decide : (0x8000 : Word) < WINDOW)
    hfrom habs (by decide) (by decide)
  refine ⟨k + 6, m', ?_, hnone⟩
  rw [shareMultiPages, if_neg (by decide), sharePages, sharePage_mono hr (by omega),
    Option.bind_some, sharePages]
  show ((sharePage (k + 6) m₂ 0x8000 0x4400000).bind _).map _ = _
  rw [sharePage_mono hr' (by omega)]
  rfl

/-- Two entries of the page directory for one page table. -/
def twice (m : Mem) : Mem := (m.addTable 16 8192).setTable 17 8192

theorem Full.twice_frameOf (h : Full m) : (∀ n < 1048576, n / 1024 ≠ 17 →
      m.twice.frameOf n = if n = 8192 then some 8192 else m.frameOf n) ∧
    ∀ n, n / 1024 = 17 → m.twice.frameOf n = none := by
  obtain ⟨hlt, hun, -⟩ := firstFree_some h.next
  have hw := h.window.addTable hun hlt h.covered (by decide : 16 < 1024)
    (h.bare 16 (by decide) (by decide))
  have hT : m.twice.tableOf = Function.update (m.addTable 16 8192).tableOf 17 (some 8192) :=
    setTable_tableOf hlt 17
  have hphys : ∀ f, f ≠ 7 → m.twice.phys f = (m.addTable 16 8192).phys f :=
    fun f hf => put_phys_of_ne hf _ _
  constructor
  · intro n hn hd
    rw [← h.window.addTable_frameOf hun hlt h.covered (h.bare 16 (by decide) (by decide)) hn,
      frameOf, frameOf]
    congr 1
    have hold : m.twice.tableOf (n / 1024) = (m.addTable 16 8192).tableOf (n / 1024) := by
      rw [hT, Function.update_of_ne hd]
    cases ht : (m.addTable 16 8192).tableOf (n / 1024) with
    | none => rw [pte_none (hold.trans ht), pte_none ht]
    | some t =>
        rw [pte_some (hold.trans ht), pte_some ht, hphys t (hw.tables.ne _ (by omega) t ht)]
  · intro n hd
    have ht : m.twice.tableOf (n / 1024) = some 8192 := by rw [hT, hd, Function.update_self]
    rw [frameOf, pte_some ht, hphys 8192 (by decide), addTable, put_phys_of_ne (by decide),
      grab_phys, Function.update_self]
    exact entryFrame_zero

/-- The pages of one block are those of the other, too. -/
theorem Full.share_twice (h : Full m) : ∃ k m',
    shareMultiPages k m.twice 0 0x4000000 1 = some (1, m') ∧ m.twice.frameOf 17408 = none ∧
      m'.frameOf 17408 = some 0 := by
  obtain ⟨hF, hF17⟩ := h.twice_frameOf
  have hfrom : m.twice.frameOf (mapNr 0) = some 0 := by
    rw [hF (mapNr 0) (by decide) (by decide), if_neg (by decide)]
    exact h.window.kernelPage 0 (by decide)
  obtain ⟨hlt, hun, -⟩ := firstFree_some h.next
  have hT : m.twice.tableOf = Function.update (m.addTable 16 8192).tableOf 17 (some 8192) :=
    setTable_tableOf hlt 17
  have ht : m.twice.tableOf (mapNr 0x4000000 / 1024) = some 8192 := by
    rw [hT, Function.update_of_ne (by decide), h.window.addTable_tableOf hun hlt h.covered,
      show mapNr 0x4000000 / 1024 = 16 by decide, Function.update_self]
  have ht17 : m.twice.tableOf (17408 / 1024) = some 8192 := by
    rw [hT, Function.update_self]
  have hr := sharePage_ready (by decide : (0 : Word) < WINDOW) hfrom ht
  refine ⟨1, _, by rw [shareMultiPages, if_neg (by decide), sharePages, hr]; rfl,
    hF17 17408 (by decide), ?_⟩
  have hs : (m.twice.setMap 0 (m.twice.memMap 0 + 1)).tableOf (mapNr 0x4000000 / 1024)
      = some 8192 := ht
  rw [link, Tables.putPte_eq hs]
  have ht' : ((m.twice.setMap 0 (m.twice.memMap 0 + 1)).put 8192 (mapNr 0x4000000 % 1024)
      (m.twice.pte (mapNr 0) &&& ~~~2)).tableOf (17408 / 1024) = some 8192 := by
    rw [tableOf_congr (put_phys_of_ne (by decide) _ _)]
    exact ht17
  rw [frameOf, pte_some ht', put_phys, show mapNr 0x4000000 % 1024 = 17408 % 1024 by decide,
    Function.update_self, entryFrame_readOnly]
  exact hfrom

theorem Full.twice_used (h : Full m) : ∀ n < 1048576, ∀ f, m.twice.frameOf n = some f →
    m.twice.memMap f ≠ UNUSED := by
  intro n hn f hnf
  obtain ⟨hF, hF17⟩ := h.twice_frameOf
  have hmap : m.twice.memMap f = Function.update m.memMap 8192 1 f :=
    congrFun (addTable_memMap m 16 8192) f
  by_cases hd : n / 1024 = 17
  · rw [hF17 n hd] at hnf
    cases hnf
  · rw [hF n hn hd] at hnf
    rw [hmap, Function.update_apply]
    split_ifs with hf
    · decide
    · split_ifs at hnf
      · exact absurd (Option.some.inj hnf).symm hf
      · exact h.used n hn f hnf

/-! ### Pages `to` that the kernel uses -/

section
variable {t g : Nat}

/-- A page table is read and written through the page of its frame, wherever that page leads. -/
theorem load_pagePtr_through (ht : m.tableOf (mapNr a / 1024) = some t)
    (hg : m.frameOf t = some g) :
    (Mmu.settled m).load (pagePtr (m.tableEntry a) a) = some (m.phys g (mapNr a % 1024)) := by
  have hnr : mapNr (m.tableEntry a) = t := by
    rw [tableEntry_eq]
    exact (entryFrame_some ht).2
  rw [Mmu.load, (mapNr_pagePtr _ a).1, (mapNr_pagePtr _ a).2, hnr, Mmu.settled_frame, hg]
  rfl

theorem store_pagePtr_through (ht : m.tableOf (mapNr a / 1024) = some t)
    (hg : m.frameOf t = some g) (v : Word) :
    ((Mmu.settled m).store (pagePtr (m.tableEntry a) a) v).map Mmu.invalidate
      = some (Mmu.settled (m.put g (mapNr a % 1024) v)) := by
  have hnr : mapNr (m.tableEntry a) = t := by
    rw [tableEntry_eq]
    exact (entryFrame_some ht).2
  rw [Mmu.store, (mapNr_pagePtr _ a).1, (mapNr_pagePtr _ a).2, hnr, Mmu.settled_frame, hg]
  rfl

theorem load_tablePtr_settled (h7 : m.frameOf 7 = some 7) (a : Word) :
    (Mmu.settled m).load (tablePtr a) = some (m.tableEntry a) := by
  refine Mmu.settled_load ?_
  rw [(mapNr_tablePtr a).1]
  exact h7

theorem needFromTable_settled (h7 : m.frameOf 7 = some 7)
    (ht : m.tableOf (mapNr a / 1024) = some t) (k : Nat) :
    Mmu.needFromTable (k + 1) (Mmu.settled m) a = some (Mmu.settled m) := by
  rw [Mmu.needFromTable, load_tablePtr_settled h7, Option.bind_some, tableEntry_present ht,
    if_pos rfl]

variable (h7 : m.frameOf 7 = some 7) (ht : m.tableOf (mapNr a / 1024) = some t)
  (hab : mapNr b / 1024 = mapNr a / 1024) (ha : a < WINDOW)
include h7 ht hab ha

/-- `share_page` with two pages of one block, the first of them mapped as far as the kernel sees. -/
theorem sharePage_seen {g f : Nat} (hg : m.frameOf t = some g) {v : Word}
    (hv : m.phys g (mapNr a % 1024) = v) (hf : entryFrame v = some f) (k : Nat) :
    Mmu.sharePage (k + 1) (Mmu.settled m) a b = some (Mmu.settled
      ((m.setMap f (m.memMap f + 1)).put g (mapNr b % 1024) (v &&& ~~~2))) := by
  obtain ⟨hpres, hnr⟩ := entryFrame_some hf
  have htb : m.tableOf (mapNr b / 1024) = some t := hab ▸ ht
  have hload := (load_pagePtr_through ht hg).trans (congrArg some hv)
  have hstore := store_pagePtr_through (m := m.setMap f (m.memMap f + 1)) (a := b) htb hg
    (v &&& ~~~2)
  rw [Mmu.sharePage, needFromTable_settled h7 ht, Option.bind_some, Mmu.needFromPage,
    load_tablePtr_settled h7, Option.bind_some, hload, Option.bind_some, hpres, if_pos rfl,
    Option.bind_some, load_tablePtr_settled h7, Option.bind_some]
  simp only [Mmu.needTable, load_tablePtr_settled h7, Option.bind_some, tableEntry_present htb,
    if_true, hload, hnr, Mmu.settled_setMap, Mmu.settled_mem, if_neg (BitVec.not_le.mpr ha)]
  rw [Option.map_eq_bind] at hstore
  exact hstore

/-- When the page of the page table leads to another frame, in which the entry looks empty, that
frame is all that changes. -/
theorem sharePage_unseen {g : Nat} (hg : m.frameOf t = some g) (hu : Unlinked m g)
    (hz : m.phys g (mapNr a % 1024) = 0) (ht20 : t < 1048576) :
    ∃ m' x, Mmu.sharePage 4 (Mmu.settled m) a b = some (Mmu.settled m') ∧
      m'.phys = Function.update m.phys g x := by
  have hload := (load_pagePtr_through ht hg).trans (congrArg some hz)
  have hstore := store_pagePtr_through ht hg ((a &&& 0xFFFFF000) ||| 7)
  -- the state after `do_no_page`
  have hT : (m.put g (mapNr a % 1024) ((a &&& 0xFFFFF000) ||| 7)).tableOf = m.tableOf :=
    hu.fill_tableOf rfl
  have hF : ∀ n < 1048576,
      (m.put g (mapNr a % 1024) ((a &&& 0xFFFFF000) ||| 7)).frameOf n = m.frameOf n :=
    fun n hn => hu.fill_frameOf rfl hn
  have hself : (m.put g (mapNr a % 1024) ((a &&& 0xFFFFF000) ||| 7)).phys g (mapNr a % 1024)
      = (a &&& 0xFFFFF000) ||| 7 := by
    rw [put_phys, Function.update_self]
  have hphys : (m.put g (mapNr a % 1024) ((a &&& 0xFFFFF000) ||| 7)).phys
      = Function.update m.phys g _ := rfl
  generalize m.put g (mapNr a % 1024) ((a &&& 0xFFFFF000) ||| 7) = m₂ at hstore hT hF hself hphys
  have h7₂ : m₂.frameOf 7 = some 7 := (hF 7 (by decide)).trans h7
  have ht₂ : m₂.tableOf (mapNr a / 1024) = some t := hT ▸ ht
  have hg₂ : m₂.frameOf t = some g := (hF t ht20).trans hg
  have hseen := sharePage_seen h7₂ ht₂ hab ha hg₂ hself (entryFrame_self a) 3
  refine ⟨_, Function.update (m₂.phys g) (mapNr b % 1024) (((a &&& 0xFFFFF000) ||| 7) &&& ~~~2),
    Eq.trans ?_ hseen, ?_⟩
  · -- both calls come to the loop for `to` in the same state
    have hfault : Mmu.doNoPage 3 (Mmu.settled m) a = some (Mmu.settled m₂) := by
      rw [Mmu.doNoPage, Mmu.needTable, load_tablePtr_settled h7, Option.bind_some,
        tableEntry_present ht, if_pos rfl, Option.bind_some, load_tablePtr_settled h7,
        Option.bind_some]
      simp only [if_pos ha]
      exact hstore
    have hend : ∀ n, Mmu.needFromPage (n + 1) (Mmu.settled m₂) a = some (Mmu.settled m₂) := by
      intro n
      rw [Mmu.needFromPage, load_tablePtr_settled h7₂, Option.bind_some,
        load_pagePtr_through ht₂ hg₂, hself, Option.bind_some, present_or_seven, if_pos rfl]
    have hpage : Mmu.needFromPage 4 (Mmu.settled m) a = some (Mmu.settled m₂) := by
      rw [Mmu.needFromPage, load_tablePtr_settled h7, Option.bind_some, hload, Option.bind_some,
        if_neg (by decide), hfault, Option.bind_some, hend]
    rw [Mmu.sharePage, needFromTable_settled h7 ht, Option.bind_some, hpage, Option.bind_some,
      Mmu.sharePage, needFromTable_settled h7₂ ht₂, Option.bind_some, hend, Option.bind_some]
  · show Function.update m₂.phys g (Function.update (m₂.phys g) _ _) = _
    exact (congrArg (Function.update · g _) hphys).trans (Function.update_idem _ _ _)

end

/-- When the page table of the kernel's first pages is mapped at its own page anew, the entries of
the next page are read and written in the frame that the page now leads to. -/
theorem Full.share_table (h : Full m) : ∃ k c',
    Mmu.shareMultiPages k (Mmu.settled m) 0 0x8000 2 = some (1, c') ∧
      c'.mem.frameOf 1 = some 1 ∧ c'.mem.frameOf 9 = some 9 := by
  have hw := h.window
  have ht : m.tableOf (mapNr 0 / 1024) = some 8 := hw.kernelTable 0 (by decide)
  have hpage := fun n (hn : n < 8192) => hw.kernelPage n hn
  have hpte : m.phys 8 (mapNr 0 % 1024) = m.pte 0 := (pte_some (n := 0) ht).symm
  have hseen := Mem.sharePage_seen (b := 0x8000) (hpage 7 (by decide)) ht (by decide) (by decide)
    (hpage 8 (by decide)) hpte (hpage 0 (by decide)) 3
  have hlink : (m.setMap 0 (m.memMap 0 + 1)).put 8 (mapNr 0x8000 % 1024) (m.pte 0 &&& ~~~2)
      = m.link 0 8 0 :=
    (Tables.putPte_eq (m := m.setMap 0 (m.memMap 0 + 1)) (n := 8) ht _).symm
  have hF := fun n (hn : n < 1048576) =>
    hw.tables.frameOf_link (a := 0) (by decide : 8 < 1048576) ht (hpage 0 (by decide)) hn
  have hT : (m.link 0 8 0).tableOf = m.tableOf := hw.tables.tableOf_link (by decide) ht
  have hphys : (m.link 0 8 0).phys 0 = zeroFrame := by
    rw [← hlink, put_phys_of_ne (by decide)]
    exact h.zero
  rw [hlink] at hseen
  -- page 8 is now a second mapping of frame 0
  have hkept : ∀ n < 8192, n ≠ 8 → (m.link 0 8 0).frameOf n = some n := fun n hn hne =>
    (hF n (by omega)).trans ((if_neg hne).trans (hpage n hn))
  have hu : Unlinked (m.link 0 8 0) 0 := h.unlinked.congr hT
  obtain ⟨m', x, hr, hx⟩ := Mem.sharePage_unseen (a := 0x1000) (b := 0x9000)
    (hkept 7 (by decide) (by decide)) (hT ▸ ht) (by decide) (by decide)
    ((hF 8 (by decide)).trans (if_pos rfl)) hu (congrFun hphys _) (by decide)
  refine ⟨4, Mmu.settled m', ?_, ?_, ?_⟩
  · rw [Mmu.shareMultiPages, if_neg (by decide), Mmu.sharePages, hseen, Option.bind_some,
      Mmu.sharePages]
    show ((Mmu.sharePage 4 (Mmu.settled (m.link 0 8 0)) 0x1000 0x9000).bind _).map _ = _
    rw [hr]
    rfl
  · exact (hu.fill_frameOf hx (by decide)).trans (hkept 1 (by decide) (by decide))
  · exact (hu.fill_frameOf hx (by decide)).trans (hkept 9 (by decide) (by decide))

/-- With enough free frames and every mapped frame in use, the translation of a page outside the
ranges changes: when the kernel maps the frame of a new page table, when a counter wraps, and when
two blocks have one page table. A page of the range keeps its old frame when the pages `to` are
those of the page tables, through which the kernel reads and writes the entries. -/
theorem shareMultiPages_outside :
    (∃ m, Window 16384 m ∧ (∀ f, 8192 ≤ f → f < 16384 → m.memMap f = UNUSED) ∧
      (∀ n < 1048576, ∀ f, m.frameOf n = some f → m.memMap f ≠ UNUSED) ∧ m.Room 0 1 ∧
      ∃ k m', shareMultiPages k m 0 0x4000000 1 = some (1, m') ∧
        m.frameOf 8192 = none ∧ m'.frameOf 8192 = some 8192) ∧
    (∃ m, Window 16384 m ∧ (∀ f, 8192 ≤ f → f < 16384 → m.memMap f = UNUSED) ∧
      (∀ n < 1048576, ∀ f, m.frameOf n = some f → m.memMap f ≠ UNUSED) ∧
      ∃ k m', shareMultiPages k m 0x7000 0x43FF000 2 = some (1, m') ∧
        m.frameOf 1024 = some 1024 ∧ m'.frameOf 1024 = none) ∧
    (∃ m, (∀ f, 8193 ≤ f → f < 16384 → m.memMap f = UNUSED) ∧
      (∀ n < 1048576, ∀ f, m.frameOf n = some f → m.memMap f ≠ UNUSED) ∧
      ∃ k m', shareMultiPages k m 0 0x4000000 1 = some (1, m') ∧
        m.frameOf 17408 = none ∧ m'.frameOf 17408 = some 0) ∧
    ∃ m, Window 16384 m ∧ (∀ f, 8192 ≤ f → f < 16384 → m.memMap f = UNUSED) ∧
      (∀ n < 1048576, ∀ f, m.frameOf n = some f → m.memMap f ≠ UNUSED) ∧ m.Room 0 2 ∧
      ∃ k c, Mmu.shareMultiPages k (Mmu.settled m) 0 0x8000 2 = some (1, c) ∧
        c.mem.frameOf 1 = some 1 ∧ c.mem.frameOf 9 = some 9 := by
  obtain ⟨m, h⟩ := full_machine
  have hset : ∀ f, f ≠ 7 → (m.setMap 7 255).memMap f = m.memMap f :=
    fun f hf => Function.update_of_ne hf _ _
  refine ⟨⟨m, h.window, h.high, h.used, h.window.room (by decide) h.count, ?_⟩,
    ⟨m.setMap 7 255, ?_, fun f hge hlt => ?_, fun n hn f hnf => ?_, ?_⟩,
    ⟨m.twice, fun f hge hlt => ?_, h.twice_used, h.share_twice⟩,
    ⟨m, h.window, h.high, h.used, h.window.room (by decide) h.count, h.share_table⟩⟩
  · obtain ⟨k, m', hr, hmap⟩ := h.share_maps
    exact ⟨k, m', hr, h.unmapped, hmap⟩
  · exact h.window.setMap (fun _ => by decide) (h.window.covered_low (by decide))
  · rw [hset f (by omega)]
    exact h.high f hge hlt
  · by_cases hf : f = 7
    · rw [hf, show (m.setMap 7 255).memMap 7 = 255 from Function.update_self 7 _ m.memMap]
      decide
    · rw [hset f hf]
      exact h.used n hn f hnf
  · obtain ⟨k, m', hr, hmap⟩ := h.share_wraps
    exact ⟨k, m', hr, h.window.kernelPage 1024 (by decide), hmap⟩
  · have hmap : m.twice.memMap f = Function.update m.memMap 8192 1 f :=
      congrFun (addTable_memMap m 16 8192) f
    rw [hmap, Function.update_of_ne (by omega)]
    exact h.high f (by omega) hlt

end Mks.Mem
