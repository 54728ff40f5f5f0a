import Mathlib

set_option autoImplicit false

/-! # x86 segment descriptors

A segment descriptor is two 32-bit words in which the base is split over three fields and the limit
over two. `decode` puts them together again. The limit is the last unit of the segment, not the
number of units: with page granularity the limit `l` gives `l + 1` pages (`lastOffset_pages`).
-/

namespace Mks.Descriptor

/-- What the two words of a descriptor of a code or data segment say. -/
structure Segment where
  base : BitVec 32
  limit : BitVec 20
  type : BitVec 4
  /-- a code or data segment, not a system segment -/
  s : Bool
  dpl : BitVec 2
  present : Bool
  /-- 32-bit operands and stack -/
  db : Bool
  /-- the limit counts pages of 4096 bytes, not bytes -/
  granularity : Bool
  deriving DecidableEq

/-- The fields of the words `a` and `b`, which lie at the lower and the higher address. -/
def decode (a b : BitVec 32) : Segment where
  base := b.extractLsb' 24 8 ++ b.extractLsb' 0 8 ++ a.extractLsb' 16 16
  limit := b.extractLsb' 16 4 ++ a.extractLsb' 0 16
  type := b.extractLsb' 8 4
  s := b.getLsbD 12
  dpl := b.extractLsb' 13 2
  present := b.getLsbD 15
  db := b.getLsbD 22
  granularity := b.getLsbD 23

/-! ## The split fields, bit by bit -/

theorem getLsbD_base (a b : BitVec 32) {i : Nat} (hi : i < 32) :
    (decode a b).base.getLsbD i =
      if i < 16 then a.getLsbD (16 + i) else if i < 24 then b.getLsbD (i - 16)
      else b.getLsbD i := by
  change (b.extractLsb' 24 8 ++ b.extractLsb' 0 8 ++ a.extractLsb' 16 16).getLsbD i = _
  rw [BitVec.getLsbD_append, BitVec.getLsbD_append]
  split_ifs with h₁ h₂ h₃ h₄ <;> grind

theorem getLsbD_limit (a b : BitVec 32) {i : Nat} (hi : i < 20) :
    (decode a b).limit.getLsbD i = if i < 16 then a.getLsbD i else b.getLsbD i := by
  change (b.extractLsb' 16 4 ++ a.extractLsb' 0 16).getLsbD i = _
  rw [BitVec.getLsbD_append]
  split_ifs with h <;> grind

namespace Segment

/-- The largest offset the limit admits. -/
def lastOffset (d : Segment) : Nat :=
  if d.granularity then d.limit.toNat * 4096 + 4095 else d.limit.toNat

/-- The linear addresses of the segment: an offset up to the last one, added to the base modulo
`2^32`. -/
def linear (d : Segment) : Set (BitVec 32) := {a | (a - d.base).toNat ≤ d.lastOffset}

theorem mem_linear {d : Segment} {a : BitVec 32} :
    a ∈ d.linear ↔ (a - d.base).toNat ≤ d.lastOffset := Iff.rfl

/-- A segment that ends below `2^32` is an interval. -/
theorem mem_linear_iff {d : Segment} {a : BitVec 32}
    (h : d.base.toNat + d.lastOffset < 2 ^ 32) :
    a ∈ d.linear ↔ d.base.toNat ≤ a.toNat ∧ a.toNat ≤ d.base.toNat + d.lastOffset := by
  have ha := a.isLt
  rw [mem_linear, BitVec.toNat_sub]
  omega

theorem lastOffset_pages {d : Segment} (h : d.granularity = true) :
    d.lastOffset + 1 = (d.limit.toNat + 1) * 4096 := by
  rw [lastOffset, if_pos h]
  omega

/-- A segment that counts pages and starts at `lo` is exactly `[lo, lo + 4096 * n)` if and only if
its limit is `n - 1`. -/
theorem linear_eq_iff {d : Segment} {n : Nat} (hg : d.granularity = true) (hn : 0 < n)
    (h : d.base.toNat + 4096 * n < 2 ^ 32) :
    (∀ a : BitVec 32,
      a ∈ d.linear ↔ d.base.toNat ≤ a.toNat ∧ a.toNat < d.base.toNat + 4096 * n) ↔
      d.limit.toNat + 1 = n := by
  have hl := lastOffset_pages hg
  constructor
  · intro hall
    have at_offset (o : Nat) (ho : d.base.toNat + o < 2 ^ 32) :
        (BitVec.ofNat 32 (d.base.toNat + o)).toNat = d.base.toNat + o ∧
          (BitVec.ofNat 32 (d.base.toNat + o) ∈ d.linear ↔ o ≤ d.lastOffset) := by
      rw [mem_linear, BitVec.toNat_sub, BitVec.toNat_ofNat, Nat.mod_eq_of_lt ho]
      omega
    -- the last address of the interval is in the segment, the next one is not
    have hlast := at_offset (4096 * n - 1) (by omega)
    have hnext := at_offset (4096 * n) h
    have h₁ := hall (BitVec.ofNat 32 (d.base.toNat + (4096 * n - 1)))
    have h₂ := hall (BitVec.ofNat 32 (d.base.toNat + 4096 * n))
    rw [hlast.1, hlast.2] at h₁
    rw [hnext.1, hnext.2] at h₂
    omega
  · intro hd a
    rw [mem_linear_iff (by omega)]
    omega

/-- Segments that end below `2^32` share no address if and only if one ends before the other
starts. -/
theorem disjoint_iff {d e : Segment} (hd : d.base.toNat + d.lastOffset < 2 ^ 32)
    (he : e.base.toNat + e.lastOffset < 2 ^ 32) :
    Disjoint d.linear e.linear ↔ d.base.toNat + d.lastOffset < e.base.toNat ∨
      e.base.toNat + e.lastOffset < d.base.toNat := by
  rw [Set.disjoint_left]
  constructor
  · intro h
    by_contra hc
    rw [not_or, not_lt, not_lt] at hc
    -- the greater of the two bases is in both
    rcases le_total d.base.toNat e.base.toNat with hle | hle
    · exact h ((mem_linear_iff hd).mpr ⟨hle, hc.1⟩)
        ((mem_linear_iff he).mpr ⟨le_rfl, Nat.le_add_right _ _⟩)
    · exact h ((mem_linear_iff hd).mpr ⟨le_rfl, Nat.le_add_right _ _⟩)
        ((mem_linear_iff he).mpr ⟨hle, hc.2⟩)
  · intro h a ha ha'
    rw [mem_linear_iff hd] at ha
    rw [mem_linear_iff he] at ha'
    omega

end Segment

end Mks.Descriptor
