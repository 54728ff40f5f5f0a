import Mks.Memory.Tables

set_option autoImplicit false

/-! # The loops of `mem_init`

`mem_init` marks all of `mem_map` as in use and then the main memory as free, without a check that
the main memory lies within `mem_map`. `memInitLoops` follows the two loops and ends in `none` when
an index is not below `PAGING_PAGES`; it computes what `memInit` says (`memInitLoops_eq`). With the
bounds that `main` computes, it stays within `mem_map` exactly if the size of the RAM is at least
1MB (`free_range_exact`).
-/

namespace Mks.Mem

/-! ## The loops -/

/-- `for (i=0 ; i<PAGING_PAGES ; i++) mem_map[i] = USED;` -/
def markUsed (m : Mem) : Nat → Mem
  | 0 => m
  | n + 1 => (markUsed m n).setMap n USED

/-- `while (mem_size-- > 0) mem_map[i++] = UNUSED;` -/
def markUnused : Nat → Mem → Nat → Option Mem
  | 0, m, _ => some m
  | memSize + 1, m, i =>
      if i < PAGING_PAGES then markUnused memSize (m.setMap i UNUSED) (i + 1) else none

/-- `mem_init`, loop by loop. -/
def memInitLoops (m : Mem) (startMem endMem : Word) : Option Mem :=
  markUnused (mapNr (endMem - startMem)) (m.markUsed PAGING_PAGES) (mapNr startMem)

theorem markUsed_eq (m : Mem) (n : Nat) :
    m.markUsed n = { m with memMap := fun k => if k < n then USED else m.memMap k } := by
  induction n with
  | zero => rfl
  | succ n ih =>
      unfold markUsed
      rw [ih, setMap]
      congr 1
      funext k
      dsimp only
      rcases Nat.lt_trichotomy k n with h | h | h
      · rw [Function.update_of_ne (by omega), if_pos h, if_pos (by omega)]
      · subst h
        rw [Function.update_self, if_pos (by omega)]
      · rw [Function.update_of_ne (by omega), if_neg (by omega), if_neg (by omega)]

/-- The second loop, when it stays within `mem_map`. -/
theorem markUnused_eq {memSize i : Nat} (m : Mem) (h : i + memSize ≤ PAGING_PAGES) :
    markUnused memSize m i = some { m with
      memMap := fun k => if i ≤ k ∧ k < i + memSize then UNUSED else m.memMap k } := by
  induction memSize generalizing m i with
  | zero =>
      unfold markUnused
      have hmap : (fun k => if i ≤ k ∧ k < i + 0 then UNUSED else m.memMap k) = m.memMap := by
        funext k
        exact if_neg (by omega)
      rw [hmap]
  | succ memSize ih =>
      unfold markUnused
      rw [if_pos (by omega), ih _ (by omega)]
      congr 2
      funext k
      dsimp only [setMap]
      by_cases hk : i + 1 ≤ k ∧ k < i + 1 + memSize
      -- written by the rest of the loop, by this turn, or not at all
      · rw [if_pos hk, if_pos (by omega)]
      · rw [if_neg hk]
        by_cases hki : k = i
        · subst hki
          rw [Function.update_self, if_pos (by omega)]
        · rw [Function.update_of_ne hki, if_neg (by omega)]

/-- The second loop leaves `mem_map` when the main memory does. -/
theorem markUnused_none {memSize i : Nat} (m : Mem) (hi : i ≤ PAGING_PAGES)
    (h : PAGING_PAGES < i + memSize) : markUnused memSize m i = none := by
  induction memSize generalizing m i with
  | zero => omega
  | succ memSize ih =>
      unfold markUnused
      by_cases hlt : i < PAGING_PAGES
      · rw [if_pos hlt]
        exact ih _ (by omega) (by omega)
      · exact if_neg hlt

/-- The loops compute what `memInit` says. -/
theorem memInitLoops_eq (m : Mem) {startMem endMem : Word} (h : mapNr startMem ≤ PAGING_PAGES) :
    m.memInitLoops startMem endMem = m.memInit startMem endMem := by
  unfold memInitLoops memInit
  simp only []
  by_cases hle : mapNr startMem + mapNr (endMem - startMem) ≤ PAGING_PAGES
  · rw [if_pos hle, markUnused_eq _ hle, markUsed_eq]
  · rw [if_neg hle, markUnused_none _ h (by omega)]

/-! ## The bounds that `main` computes -/

theorem mainMemory_end (memSize : Word) :
    (mainMemory memSize).2.toNat = min (memSize.toNat / 4096 * 4096) 0x4000000 := by
  have hround : (memSize &&& 0xFFFFF000).toNat = memSize.toNat / 4096 * 4096 := by
    have := memSize.isLt
    rw [BitVec.toNat_and]
    show memSize.toNat &&& (2 ^ 20 - 1) <<< 12 = _
    rw [and_ones]
    omega
  unfold mainMemory
  simp only [gt_iff_lt, BitVec.lt_def]
  split
  · next h =>
      have h : 0x4000000 < (memSize &&& 0xFFFFF000).toNat := h
      show 0x4000000 = _
      omega
  · next h =>
      have h : ¬ 0x4000000 < (memSize &&& 0xFFFFF000).toNat := h
      omega

theorem mainMemory_start (memSize : Word) :
    (mainMemory memSize).1.toNat
      = if 0xC00000 < (mainMemory memSize).2.toNat then 0x400000
        else if 0x600000 < (mainMemory memSize).2.toNat then 0x200000 else 0x100000 := by
  unfold mainMemory
  simp only [gt_iff_lt, BitVec.lt_def]
  split_ifs <;> first | rfl | contradiction

/-- The main memory ends above its start exactly if there is 1MB of RAM. -/
theorem mainMemory_le (memSize : Word) :
    (mainMemory memSize).1.toNat ≤ (mainMemory memSize).2.toNat ↔ 0x100000 ≤ memSize.toNat := by
  have hend := mainMemory_end memSize
  rw [mainMemory_start]
  split_ifs <;> omega

/-! ## The free range -/

/-- Frame `i` lies between `main_memory_start` and `memory_end`. -/
def InMainMemory (memSize : Word) (i : Nat) : Prop :=
  (mainMemory memSize).1.toNat ≤ i * 4096 ∧ (i + 1) * 4096 ≤ (mainMemory memSize).2.toNat

instance (memSize : Word) (i : Nat) : Decidable (InMainMemory memSize i) :=
  inferInstanceAs (Decidable (_ ∧ _))

theorem mainMemory_aligned (memSize : Word) :
    mapNr (mainMemory memSize).1 * 4096 = (mainMemory memSize).1.toNat ∧
      mapNr (mainMemory memSize).1 ≤ 1024 := by
  rw [mapNr_eq, mainMemory_start]
  split_ifs <;> decide

/-- `mem_init` with at least 1MB of RAM. -/
theorem memInitLoops_some (m : Mem) {memSize : Word} (h : 0x100000 ≤ memSize.toNat) :
    ∃ m', m.memInitLoops (mainMemory memSize).1 (mainMemory memSize).2 = some m' ∧
      ∀ i < PAGING_PAGES, m'.memMap i = if InMainMemory memSize i then UNUSED else USED := by
  obtain ⟨hs, hlt⟩ := mainMemory_aligned memSize
  have he := mainMemory_end memSize
  have hse := (mainMemory_le memSize).mpr h
  have hsize : mapNr ((mainMemory memSize).2 - (mainMemory memSize).1)
      = (mainMemory memSize).2.toNat / 4096 - mapNr (mainMemory memSize).1 := by
    rw [mapNr_eq, BitVec.toNat_sub]
    omega
  rw [memInitLoops_eq m (le_trans hlt (by decide)), memInit]
  simp only [hsize]
  rw [if_pos (by unfold PAGING_PAGES; omega)]
  refine ⟨_, rfl, fun i hi => ?_⟩
  dsimp only
  by_cases hin : InMainMemory memSize i
  · rw [if_pos hin, if_pos ?_]
    unfold InMainMemory at hin
    omega
  · rw [if_neg hin, if_neg ?_, if_pos hi]
    unfold InMainMemory at hin
    omega

/-- With less, `end_mem - start_mem` wraps around, and `mem_init` leaves `mem_map`. -/
theorem memInitLoops_none (m : Mem) {memSize : Word} (h : memSize.toNat < 0x100000) :
    m.memInitLoops (mainMemory memSize).1 (mainMemory memSize).2 = none := by
  obtain ⟨hs, hlt⟩ := mainMemory_aligned memSize
  have he := mainMemory_end memSize
  have hse := mt (mainMemory_le memSize).mp (by omega)
  rw [memInitLoops_eq m (le_trans hlt (by decide)), memInit]
  refine if_neg ?_
  -- the difference is nearly 4GB, that is, about 2^20 frames
  rw [mapNr_eq (_ - _), BitVec.toNat_sub]
  unfold PAGING_PAGES
  omega

/-- The free range is exact: `mem_init` stays within `mem_map`, and marks as free exactly the frames
of the main memory. -/
def FreeRangeExact (m : Mem) (memSize : Word) : Prop :=
  ∃ m', m.memInitLoops (mainMemory memSize).1 (mainMemory memSize).2 = some m' ∧
    ∀ i < PAGING_PAGES, m'.memMap i = if InMainMemory memSize i then UNUSED else USED

/-- **The free range is exact** for a size of the RAM if and only if there is at least 1MB. -/
theorem free_range_exact (m : Mem) (memSize : Word) :
    FreeRangeExact m memSize ↔ 0x100000 ≤ memSize.toNat := by
  constructor
  · rintro ⟨m', hm', -⟩
    by_contra hlt
    rw [memInitLoops_none m (by omega)] at hm'
    cases hm'
  · exact fun h => memInitLoops_some m h

/-- A machine whose memory map adds up to 1020KB: `mem_init` writes outside of `mem_map`. -/
theorem free_range_not_exact : ¬ FreeRangeExact ⟨fun _ => 0, fun _ _ => 0⟩ 0xFF000 := by
  rintro ⟨m', hm', -⟩
  rw [memInitLoops_none _ (by decide)] at hm'
  cases hm'

end Mks.Mem
