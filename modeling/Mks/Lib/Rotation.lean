import Mathlib.Data.List.Rotate
import Mathlib.Data.List.Nodup
import Mathlib.Tactic

set_option autoImplicit false

/-! # A turn that skips one

One element has the turn and the others wait in a list. When the turn ends, the first of the list
takes it; the one that had it goes to the end of the list, and the one that is then first is moved
behind it.

The order in which the elements have the turn is still a fixed cycle (`order_turn`). With an odd
number of waiting elements the cycle has all of them, the even places first and then the odd
ones; with an even number it has the even places only, and the others never have the turn.
-/

namespace Mks.Rotation

variable {α : Type*}

/-- The end of a turn: `x.1` had the turn and `x.2` waits. -/
def turn : α × List α → α × List α
  | (c, []) => (c, [])
  | (c, a :: l) => (a, l.tail ++ c :: l.head?.toList)

/-- The elements at the even places of a list. -/
def evens : List α → List α
  | [] => []
  | [a] => [a]
  | a :: _ :: l => a :: evens l

/-- The elements at the odd places of a list. -/
def odds (l : List α) : List α := evens l.tail

/-- The elements that ever have the turn, in the order in which they have it. -/
def order (x : α × List α) : List α :=
  if x.2.length % 2 = 1 then x.1 :: (evens x.2 ++ odds x.2) else x.1 :: evens x.2

/-! ## Even and odd places -/

@[simp] theorem evens_nil : evens ([] : List α) = [] := rfl

@[simp] theorem evens_singleton (a : α) : evens [a] = [a] := rfl

@[simp] theorem evens_cons_cons (a b : α) (l : List α) : evens (a :: b :: l) = a :: evens l := rfl

@[simp] theorem odds_nil : odds ([] : List α) = [] := rfl

theorem odds_cons (a : α) (l : List α) : odds (a :: l) = evens l := rfl

@[simp] theorem odds_cons_cons (a b : α) (l : List α) : odds (a :: b :: l) = b :: odds l := by
  cases l <;> rfl

/-- Two more elements at the end go to the places of their parity. -/
theorem evens_append_pair (c d : α) (l : List α) :
    evens (l ++ [c, d]) = evens l ++ [if l.length % 2 = 0 then c else d] := by
  induction l using evens.induct with
  | case1 => rfl
  | case2 a => rfl
  | case3 a b l ih =>
      have hparity : (l.length + 1 + 1) % 2 = l.length % 2 := by omega
      simp [ih, hparity]

theorem odds_append_pair (c d : α) (l : List α) :
    odds (l ++ [c, d]) = odds l ++ [if l.length % 2 = 0 then d else c] := by
  cases l with
  | nil => rfl
  | cons a l =>
      rw [List.cons_append, odds_cons, odds_cons, evens_append_pair, List.length_cons]
      congr 2
      rcases Nat.mod_two_eq_zero_or_one l.length with h | h <;> simp [h, Nat.add_mod]

/-- Every element is at an even or at an odd place. -/
theorem evens_append_odds_perm (l : List α) : (evens l ++ odds l).Perm l := by
  induction l using evens.induct with
  | case1 => exact .refl _
  | case2 a => exact .refl _
  | case3 a b l ih =>
      rw [evens_cons_cons, odds_cons_cons, List.cons_append]
      exact (List.perm_middle.trans (ih.cons b)).cons a

/-! ## The cycle -/

/-- Nobody is lost at the end of a turn. -/
theorem turn_perm (x : α × List α) : ((turn x).1 :: (turn x).2).Perm (x.1 :: x.2) := by
  obtain ⟨c, l⟩ := x
  match l with
  | [] => exact .refl _
  | [a] => exact .swap c a []
  | a :: b :: r =>
      have h : (r ++ [c, b]).Perm ([c, b] ++ r) := List.perm_append_comm
      exact (h.cons a).trans (.swap c a _)

theorem length_turn (x : α × List α) : (turn x).2.length = x.2.length := by
  have := (turn_perm x).length_eq
  simpa using this

theorem length_iterate_turn (x : α × List α) (n : Nat) :
    (turn^[n] x).2.length = x.2.length := by
  induction n with
  | zero => rfl
  | succ n ih => rw [Function.iterate_succ_apply', length_turn, ih]

/-- **The cycle.** A turn rotates the order by one. -/
theorem order_turn (x : α × List α) : order (turn x) = (order x).rotate 1 := by
  obtain ⟨c, l⟩ := x
  match l with
  | [] => simp [order, turn]
  | [a] => simp [order, turn, odds]
  | a :: b :: r =>
      have hturn : turn (c, a :: b :: r) = (a, r ++ [c, b]) := rfl
      rw [hturn]
      unfold order
      simp only [List.length_append, List.length_cons, List.length_nil, evens_append_pair,
        odds_append_pair, evens_cons_cons, odds_cons_cons]
      rcases Nat.mod_two_eq_zero_or_one r.length with h | h
      · simp [h, Nat.add_mod]
      · simp [h, Nat.add_mod]

theorem order_iterate (x : α × List α) (n : Nat) : order (turn^[n] x) = (order x).rotate n := by
  induction n with
  | zero => simp
  | succ n ih => rw [Function.iterate_succ_apply', order_turn, ih, List.rotate_rotate]

theorem order_ne_nil (x : α × List α) : order x ≠ [] := by
  unfold order
  split_ifs <;> simp

theorem order_head (x : α × List α) : (order x).head? = some x.1 := by
  unfold order
  split_ifs <;> rfl

/-- **Who has the turn.** After `n` turns it is element `n` of the cycle. -/
theorem iterate_fst (x : α × List α) (n : Nat) :
    (order x)[n % (order x).length]? = some (turn^[n] x).1 := by
  have hlen : 0 < (order x).length := List.length_pos_iff.mpr (order_ne_nil x)
  rw [← order_head, order_iterate, List.head?_eq_getElem?, List.getElem?_rotate hlen, Nat.zero_add]

/-- With an odd number of waiting elements the cycle is complete. -/
theorem order_perm {x : α × List α} (h : x.2.length % 2 = 1) : (order x).Perm (x.1 :: x.2) := by
  rw [order, if_pos h]
  exact (evens_append_odds_perm x.2).cons _

theorem order_even {x : α × List α} (h : x.2.length % 2 = 0) : order x = x.1 :: evens x.2 := by
  rw [order, if_neg (by omega)]

/-- With an even number of waiting elements, those at odd places never have the turn. -/
theorem not_mem_order {x : α × List α} (hnd : (x.1 :: x.2).Nodup) (h : x.2.length % 2 = 0) {a : α}
    (ha : a ∈ odds x.2) : a ∉ order x := by
  have hp : (x.1 :: (evens x.2 ++ odds x.2)).Nodup :=
    ((evens_append_odds_perm x.2).cons x.1).nodup_iff.mpr hnd
  rw [order_even h, List.mem_cons]
  rw [List.nodup_cons, List.mem_append, not_or] at hp
  rintro (rfl | hev)
  · exact hp.1.2 ha
  · exact List.disjoint_of_nodup_append hp.2 hev ha

/-- Every element of the cycle has the turn within one round. -/
theorem exists_turn {x : α × List α} {a : α} (ha : a ∈ order x) :
    ∃ n < (order x).length, (turn^[n] x).1 = a := by
  obtain ⟨n, hn, rfl⟩ := List.getElem_of_mem ha
  refine ⟨n, hn, ?_⟩
  have := iterate_fst x n
  rw [Nat.mod_eq_of_lt hn, List.getElem?_eq_getElem hn] at this
  exact (Option.some.inj this).symm

end Mks.Rotation
