import Mathlib.Data.Finset.Card
import Mathlib.Logic.Function.Basic
import Mathlib.Tactic

set_option autoImplicit false

/-! # Counting references

A table `g : ι → Option κ` of slots, each empty or holding a reference to an object, and the
number of slots of a finite set `S` that refer to an object. Assigning one slot moves one
reference; all facts about reference counters follow from that.
-/

namespace Mks.RefCount

variable {ι κ : Type} [DecidableEq ι] [DecidableEq κ]

/-- The number of slots in `S` that refer to `c`. -/
def count (S : Finset ι) (g : ι → Option κ) (c : κ) : Nat :=
  (S.filter fun i => g i = some c).card

omit [DecidableEq ι] in
theorem count_congr {S : Finset ι} {g g' : ι → Option κ} (h : ∀ i ∈ S, g' i = g i) (c : κ) :
    count S g' c = count S g c := by
  unfold count
  congr 1
  exact Finset.filter_congr fun i hi => by rw [h i hi]

omit [DecidableEq ι] in
theorem count_eq_zero {S : Finset ι} {g : ι → Option κ} {c : κ} :
    count S g c = 0 ↔ ∀ i ∈ S, g i ≠ some c := by
  simp [count, Finset.filter_eq_empty_iff]

omit [DecidableEq ι] in
theorem one_le_count {S : Finset ι} {g : ι → Option κ} {c : κ} {i : ι} (hi : i ∈ S)
    (h : g i = some c) : 1 ≤ count S g c :=
  Finset.card_pos.mpr ⟨i, Finset.mem_filter.mpr ⟨hi, h⟩⟩

omit [DecidableEq ι] in
/-- Two different slots that refer to `c` make two references. -/
theorem eq_of_count_le_one {S : Finset ι} {g : ι → Option κ} {c : κ} (h : count S g c ≤ 1)
    {i j : ι} (hi : i ∈ S) (hj : j ∈ S) (gi : g i = some c) (gj : g j = some c) : i = j :=
  Finset.card_le_one.mp h i (Finset.mem_filter.mpr ⟨hi, gi⟩) j (Finset.mem_filter.mpr ⟨hj, gj⟩)

/-- Assigning a slot drops the reference it held and adds the one it gets. -/
theorem count_update {S : Finset ι} (g : ι → Option κ) {i : ι} (hi : i ∈ S) (v : Option κ)
    (c : κ) :
    (count S (Function.update g i v) c : Int)
      = count S g c - (if g i = some c then 1 else 0) + (if v = some c then 1 else 0) := by
  have split : ∀ f : ι → Option κ,
      count S f c = count (S.erase i) f c + if f i = some c then 1 else 0 := by
    intro f
    unfold count
    conv_lhs => rw [← Finset.insert_erase hi, Finset.filter_insert]
    split_ifs with hf
    · rw [Finset.card_insert_of_notMem (by simp)]
    · rfl
  have same : count (S.erase i) (Function.update g i v) c = count (S.erase i) g c :=
    count_congr (fun j hj => Function.update_of_ne (Finset.ne_of_mem_erase hj) _ _) c
  rw [split g, split (Function.update g i v), same, Function.update_self]
  push_cast
  ring

end Mks.RefCount
