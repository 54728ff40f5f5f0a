import Mks.Memory.Range

set_option autoImplicit false

/-! # The memory map (`get_memory_size` and `display_memory_size` of `boot/setup.asm`)

`setup.asm` asks the BIOS for the memory map, adds up the low words of all lengths and leaves the sum
at `0x90000`, from where `main` takes it as the end of the RAM. The test of the type of a range is
commented out, and holes between the ranges are not counted; so the frames that `mem_init` then
marks as free need not be usable memory (`allocates_usable`).
-/

namespace Mks

/-! ## The table -/

/-- An address range descriptor structure (ARDS). -/
structure Ards where
  baseAddrLow : Word
  baseAddrHigh : Word
  lengthLow : Word
  lengthHigh : Word
  type : Word
  deriving DecidableEq

namespace Ards

def base (d : Ards) : Nat := d.baseAddrHigh.toNat * 2 ^ 32 + d.baseAddrLow.toNat

def length (d : Ards) : Nat := d.lengthHigh.toNat * 2 ^ 32 + d.lengthLow.toNat

/-- The address after the last byte of the range. -/
def limit (d : Ards) : Nat := d.base + d.length

/-- Byte `a` lies in the range. -/
def Has (d : Ards) (a : Nat) : Prop := d.base ≤ a ∧ a < d.limit

instance (d : Ards) (a : Nat) : Decidable (d.Has a) := inferInstanceAs (Decidable (_ ∧ _))

/-- Frame `f` lies wholly inside the range. -/
def HasFrame (d : Ards) (f : Nat) : Prop := d.base ≤ f * 4096 ∧ (f + 1) * 4096 ≤ d.limit

/-- Two ranges do not overlap. -/
def Apart (d d' : Ards) : Prop := d.limit ≤ d'.base ∨ d'.limit ≤ d.base

instance : DecidableRel Apart := fun _ _ => inferInstanceAs (Decidable (_ ∨ _))

instance : Std.Symm Apart := ⟨fun _ _ h => h.symm⟩

end Ards

/-- The loop of `display_memory_size` that adds up the table:
`mov dword eax, [es:di+8]`, `add dword [RAM_size], eax`. The type at `[es:di+16]` is displayed; the
two lines that would skip a range which is not of type 1 are commented out. -/
def calculateRamSize : List Ards → Word → Word
  | [], ramSize => ramSize
  | d :: ards, ramSize => calculateRamSize ards (ramSize + d.lengthLow)

/-- How `get_memory_size` and `display_memory_size` end. -/
inductive SetupResult
  /-- `.get_memory_failed`: the BIOS has no range to report. -/
  | halts
  /-- The table has run into the stack. -/
  | stackLost
  /-- The value left at `0x90000`. -/
  | ramSize (memSize : Word)

/-- The table starts at `9000:0000`, 20 bytes for each range; the stack, of which the BIOS and the
program use `stackUse` bytes, ends at `9000:F000`. -/
def setupMemory (stackUse : Nat) (ards : List Ards) : SetupResult :=
  if ards = [] then .halts
  else if 20 * ards.length + stackUse ≤ 0xF000 then .ramSize (calculateRamSize ards 0)
  else .stackLost

/-! ## The sum -/

/-- The sum of the low words of all lengths, in 32 bits. -/
def sumOfLengths (ards : List Ards) : Nat := (ards.map fun d => d.lengthLow.toNat).sum % 2 ^ 32

theorem calculateRamSize_toNat (ards : List Ards) (ramSize : Word) :
    (calculateRamSize ards ramSize).toNat
      = (ramSize.toNat + (ards.map fun d => d.lengthLow.toNat).sum) % 2 ^ 32 := by
  induction ards generalizing ramSize with
  | nil =>
      have := ramSize.isLt
      simp only [calculateRamSize, List.map_nil, List.sum_nil]
      omega
  | cons d ards ih =>
      unfold calculateRamSize
      rw [ih, BitVec.toNat_add, List.map_cons, List.sum_cons]
      omega

theorem calculateRamSize_eq (ards : List Ards) :
    (calculateRamSize ards 0).toNat = sumOfLengths ards := by
  rw [calculateRamSize_toNat]
  show (0 + _) % 2 ^ 32 = _
  rw [Nat.zero_add, sumOfLengths]

namespace Mem

/-! ## Usable frames -/

/-- Every frame that `mem_init` marks as free lies wholly inside a range of type 1. -/
def AllocatesUsable (stackUse : Nat) (m : Mem) (ards : List Ards) : Prop :=
  match setupMemory stackUse ards with
  | .halts => True
  | .stackLost => False
  | .ramSize memSize =>
      ∃ m', m.memInitLoops (mainMemory memSize).1 (mainMemory memSize).2 = some m' ∧
        ∀ f < PAGING_PAGES, m'.memMap f = UNUSED → ∃ d ∈ ards, d.type = 1 ∧ d.HasFrame f

/-- The end of the RAM that `main` takes from a sum of lengths. -/
def ramEnd (sum : Nat) : Nat := min (sum / 4096 * 4096) 0x4000000

/-- The start of the main memory: above a buffer of 1MB, 2MB or 4MB. -/
def ramStart (sum : Nat) : Nat :=
  if 0xC00000 < ramEnd sum then 0x400000 else if 0x600000 < ramEnd sum then 0x200000 else 0x100000

/-- The memory from the end of the buffer up to the sum of all lengths has no hole and no reserved
range, and no range of type 1 ends inside a frame there. -/
structure Contiguous (ards : List Ards) : Prop where
  enough : 0x100000 ≤ sumOfLengths ards
  usable : ∀ a, ramStart (sumOfLengths ards) ≤ a → a < ramEnd (sumOfLengths ards) →
    ∃ d ∈ ards, d.type = 1 ∧ d.Has a
  aligned : ∀ d ∈ ards, d.type = 1 → 0 < d.length → ramStart (sumOfLengths ards) < d.limit →
    d.limit < ramEnd (sumOfLengths ards) → d.limit % 4096 = 0

theorem mainMemory_calculated (ards : List Ards) :
    (mainMemory (calculateRamSize ards 0)).1.toNat = ramStart (sumOfLengths ards) ∧
      (mainMemory (calculateRamSize ards 0)).2.toNat = ramEnd (sumOfLengths ards) := by
  have hend : (mainMemory (calculateRamSize ards 0)).2.toNat = ramEnd (sumOfLengths ards) := by
    rw [mainMemory_end, calculateRamSize_eq]
    rfl
  refine ⟨?_, hend⟩
  rw [mainMemory_start, hend]
  rfl

/-- The frames that `mem_init` gives away, for a table that fits. -/
theorem allocatesUsable_frames {stackUse : Nat} {ards : List Ards} (m : Mem) (hne : ards ≠ [])
    (hfit : 20 * ards.length + stackUse ≤ 0xF000) :
    AllocatesUsable stackUse m ards ↔ 0x100000 ≤ sumOfLengths ards ∧
      ∀ f, ramStart (sumOfLengths ards) ≤ f * 4096 → (f + 1) * 4096 ≤ ramEnd (sumOfLengths ards) →
        ∃ d ∈ ards, d.type = 1 ∧ d.HasFrame f := by
  obtain ⟨hstart, hend⟩ := mainMemory_calculated ards
  unfold AllocatesUsable setupMemory
  rw [if_neg hne, if_pos hfit]
  dsimp only
  rcases Nat.lt_or_ge (sumOfLengths ards) 0x100000 with hlt | hge
  · rw [memInitLoops_none m (by rwa [calculateRamSize_eq])]
    constructor
    · rintro ⟨m', hm', -⟩
      cases hm'
    · rintro ⟨hge, -⟩
      omega
  have hsize : 0x100000 ≤ (calculateRamSize ards 0).toNat := by rwa [calculateRamSize_eq]
  obtain ⟨m', hm', hmap⟩ := memInitLoops_some m hsize
  have hfree : ∀ f < PAGING_PAGES, m'.memMap f = UNUSED ↔
      ramStart (sumOfLengths ards) ≤ f * 4096 ∧ (f + 1) * 4096 ≤ ramEnd (sumOfLengths ards) := by
    intro f hf
    rw [hmap f hf, ← hstart, ← hend]
    by_cases hin : InMainMemory (calculateRamSize ards 0) f
    · rw [if_pos hin]
      exact iff_of_true rfl hin
    · rw [if_neg hin]
      exact iff_of_false (by decide) hin
  rw [hm']
  constructor
  -- the frames of `mem_map` and those below the end of the RAM
  · rintro ⟨m₁, hm₁, hall⟩
    obtain rfl := Option.some.inj hm₁
    refine ⟨hge, fun f hs he => ?_⟩
    have hf : f < PAGING_PAGES := by
      have : ramEnd (sumOfLengths ards) ≤ 0x4000000 := Nat.min_le_right _ _
      unfold PAGING_PAGES
      omega
    exact hall f hf ((hfree f hf).mpr ⟨hs, he⟩)
  · rintro ⟨-, hall⟩
    refine ⟨m', rfl, fun f hf hun => ?_⟩
    obtain ⟨hs, he⟩ := (hfree f hf).mp hun
    exact hall f hs he

theorem ramEnd_aligned (sum : Nat) : ramEnd sum % 4096 = 0 := by
  unfold ramEnd
  omega

theorem ramStart_aligned (sum : Nat) : ramStart sum % 4096 = 0 := by
  unfold ramStart
  split_ifs <;> rfl

/-- Two ranges of a map without overlaps that share a byte are one. -/
theorem eq_of_shared {ards : List Ards} (hov : ards.Pairwise Ards.Apart) {d d' : Ards}
    (hd : d ∈ ards) (hd' : d' ∈ ards) {a : Nat} (ha : d.Has a) (ha' : d'.Has a) : d = d' := by
  by_contra hne
  have hapart : d.Apart d' := hov.forall hd hd' hne
  unfold Ards.Has at ha ha'
  unfold Ards.Apart at hapart
  omega

/-- Frame by frame, the memory is usable exactly if it is contiguous. -/
theorem contiguous_iff {ards : List Ards} (hov : ards.Pairwise Ards.Apart) :
    Contiguous ards ↔ 0x100000 ≤ sumOfLengths ards ∧
      ∀ f, ramStart (sumOfLengths ards) ≤ f * 4096 → (f + 1) * 4096 ≤ ramEnd (sumOfLengths ards) →
        ∃ d ∈ ards, d.type = 1 ∧ d.HasFrame f := by
  have hs := ramStart_aligned (sumOfLengths ards)
  have he := ramEnd_aligned (sumOfLengths ards)
  constructor
  · rintro ⟨henough, husable, haligned⟩
    refine ⟨henough, fun f hfs hfe => ?_⟩
    obtain ⟨d, hd, htype, hbase, hlimit⟩ := husable (f * 4096) hfs (by omega)
    refine ⟨d, hd, htype, hbase, ?_⟩
    -- a range that has the first byte of the frame cannot end inside it
    by_contra hcut
    have hlen : 0 < d.length := by
      unfold Ards.limit at hlimit
      omega
    have := haligned d hd htype hlen (by omega) (by omega)
    omega
  · rintro ⟨henough, hframes⟩
    refine ⟨henough, fun a has hae => ?_, fun d hd htype hlen hls hle => ?_⟩
    · obtain ⟨d, hd, htype, hbase, hlimit⟩ := hframes (a / 4096) (by omega) (by omega)
      exact ⟨d, hd, htype, by omega, by omega⟩
    · by_contra hcut
      -- the frame in which `d` ends lies in a range that has the last byte of `d`
      obtain ⟨d', hd', -, hbase, hlimit⟩ := hframes (d.limit / 4096) (by omega) (by omega)
      have hlast : d.Has (d.limit - 1) := by
        unfold Ards.Has Ards.limit
        omega
      have heq := eq_of_shared hov hd hd' hlast ⟨by omega, by omega⟩
      rw [← heq] at hlimit
      omega

/-- **The frames given to the allocator** are usable memory if and only if the BIOS reports no range
at all, or the table does not run into the stack and the memory is contiguous up to the sum of all
lengths. -/
theorem allocates_usable {ards : List Ards} (stackUse : Nat) (m : Mem)
    (hov : ards.Pairwise Ards.Apart) : AllocatesUsable stackUse m ards ↔
      ards = [] ∨ 20 * ards.length + stackUse ≤ 0xF000 ∧ Contiguous ards := by
  by_cases hne : ards = []
  · subst hne
    exact iff_of_true trivial (.inl rfl)
  by_cases hfit : 20 * ards.length + stackUse ≤ 0xF000
  -- both sides speak of the frames
  · rw [allocatesUsable_frames m hne hfit, contiguous_iff hov]
    constructor
    · exact fun h => .inr ⟨hfit, h⟩
    · exact fun h => (h.resolve_left hne).2
  · refine iff_of_false ?_ ?_
    · unfold AllocatesUsable setupMemory
      rw [if_neg hne, if_neg hfit]
      exact id
    · rintro (h | ⟨h, -⟩)
      · exact hne h
      · exact hfit h

/-! ## Two machines -/

/-- A machine of 8MB whose reserved ranges add up to what is missing below 1MB. -/
def plainMap : List Ards :=
  [⟨0, 0, 0xA0000, 0, 1⟩, ⟨0xA0000, 0, 0x60000, 0, 2⟩, ⟨0x100000, 0, 0x700000, 0, 1⟩]

/-- The map of an emulated machine of 16MB: the last 128KB are reserved. -/
def reservedMap : List Ards :=
  [⟨0, 0, 0x9FC00, 0, 1⟩, ⟨0x9FC00, 0, 0x400, 0, 2⟩, ⟨0xF0000, 0, 0x10000, 0, 2⟩,
    ⟨0x100000, 0, 0xEE0000, 0, 1⟩, ⟨0xFE0000, 0, 0x20000, 0, 2⟩, ⟨0xFFFC0000, 0, 0x40000, 0, 2⟩]

theorem plainMap_contiguous : Contiguous plainMap := by
  have hsum : sumOfLengths plainMap = 0x800000 := by decide
  refine ⟨by rw [hsum]; decide, ?_, ?_⟩
  · rw [hsum]
    intro a hs he
    have hs : 0x200000 ≤ a := hs
    have he : a < 0x800000 := he
    refine ⟨⟨0x100000, 0, 0x700000, 0, 1⟩, by simp [plainMap], rfl, ?_, ?_⟩
    · show 0x100000 ≤ a
      omega
    · show a < 0x800000
      omega
  · decide

/-- The frames of the machine of 8MB are usable. -/
theorem allocates_usable_plain : AllocatesUsable 256 ⟨fun _ => 0, fun _ _ => 0⟩ plainMap :=
  (allocates_usable 256 _ (by decide)).mpr (.inr ⟨by decide, plainMap_contiguous⟩)

/-- On the machine of 16MB frame `0xFE0`, which is reserved, is given to the allocator. -/
theorem allocates_reserved : reservedMap.Pairwise Ards.Apart ∧
    ¬ AllocatesUsable 256 ⟨fun _ => 0, fun _ _ => 0⟩ reservedMap := by
  refine ⟨by decide, ?_⟩
  rw [allocatesUsable_frames _ (by decide) (by decide)]
  rintro ⟨-, hall⟩
  obtain ⟨d, hd, htype, hbase, hlimit⟩ := hall 0xFE0 (by decide) (by decide)
  have hno : ∀ d ∈ reservedMap, d.type = 1 → ¬ (d.base ≤ 0xFE0 * 4096 ∧
      (0xFE0 + 1) * 4096 ≤ d.limit) := by decide
  exact hno d hd htype ⟨hbase, hlimit⟩

end Mem

end Mks
