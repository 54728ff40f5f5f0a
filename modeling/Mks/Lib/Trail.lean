import Mathlib.Logic.Function.Iterate
import Mathlib.Tactic

set_option autoImplicit false

/-! # Writing along a trail of cells

A head writes one value after the other and moves on from cell to cell along `next`, which may lead
it back to cells that it has written. A cell holds the value of the last visit (`writes_last`), or
what it held before if it was never visited (`writes_unvisited`).
-/

namespace Mks.Trail

variable {C V : Type} [DecidableEq C] (next : C → C)

/-- The cells when the values have been written from cell `p` on. -/
def writes : List V → C → (C → V) → C → V
  | [], _, m => m
  | v :: l, p, m => writes l (next p) (Function.update m p v)

variable {next} {l : List V} {p : C} {m : C → V}

theorem writes_unvisited {k : C} (h : ∀ j < l.length, next^[j] p ≠ k) :
    writes next l p m k = m k := by
  induction l generalizing p m with
  | nil => rfl
  | cons v l ih =>
      have hp : p ≠ k := h 0 (Nat.succ_pos _)
      rw [writes, ih fun j hj => h (j + 1) (Nat.succ_lt_succ hj), Function.update_of_ne hp.symm]

theorem writes_last {i : Nat} (hi : i < l.length)
    (h : ∀ j, i < j → j < l.length → next^[j] p ≠ next^[i] p) :
    writes next l p m (next^[i] p) = l[i] := by
  induction l generalizing p m i with
  | nil => cases hi
  | cons v l ih =>
      rw [writes]
      cases i with
      | zero =>
          refine (writes_unvisited fun j hj => ?_).trans (Function.update_self ..)
          exact h (j + 1) (Nat.succ_pos j) (Nat.succ_lt_succ hj)
      | succ i =>
          exact ih (Nat.lt_of_succ_lt_succ hi) fun j hij hj =>
            h (j + 1) (Nat.succ_lt_succ hij) (Nat.succ_lt_succ hj)

end Mks.Trail
