import Mathlib.Data.BitVec
import Mathlib.Data.Nat.Digits.Defs
import Mathlib.Tactic

set_option autoImplicit false

/-! # Decimal numerals

The canonical decimal numeral of an integer, as ASCII characters.
-/

namespace Mks.Decimal

/-- The character of the digit `d`. -/
def digit (d : Nat) : BitVec 8 := BitVec.ofNat 8 (48 + d)

def IsDigit (b : BitVec 8) : Prop := 48 ≤ b.toNat ∧ b.toNat ≤ 57

/-- The value of a list of digits, the first of which counts most. -/
def value (l : List (BitVec 8)) : Nat := l.foldl (fun n b => 10 * n + (b.toNat - 48)) 0

/-- `l` is the canonical numeral of `a`: a minus sign if and only if `a` is negative, and digits with
the value `|a|` that do not start with a zero, except for the zero itself. -/
def Canonical (l : List (BitVec 8)) (a : Int) : Prop :=
  ∃ ds, l = (if a < 0 then [45] else []) ++ ds ∧ ds ≠ [] ∧ (∀ d ∈ ds, IsDigit d) ∧
    (ds.head? = some 48 → ds.length = 1) ∧ value ds = a.natAbs

/-- The digits of `n`, none for zero. -/
def digits (n : Nat) : List (BitVec 8) := (Nat.digits 10 n).reverse.map digit

@[simp] theorem digits_zero : digits 0 = [] := by simp [digits]

theorem digits_pos {n : Nat} (h : 0 < n) : digits n = digits (n / 10) ++ [digit (n % 10)] := by
  rw [digits, Nat.digits_def' (by decide) h, List.reverse_cons, List.map_append]
  rfl

theorem digit_toNat {d : Nat} (h : d < 10) : (digit d).toNat = 48 + d := by
  rw [digit, BitVec.toNat_ofNat, Nat.mod_eq_of_lt (by omega)]

theorem value_append (l : List (BitVec 8)) (b : BitVec 8) :
    value (l ++ [b]) = 10 * value l + (b.toNat - 48) := by
  rw [value, List.foldl_append]
  rfl

theorem digits_isDigit (n : Nat) : ∀ d ∈ digits n, IsDigit d := by
  induction n using Nat.strong_induction_on with
  | _ n ih =>
    rcases Nat.eq_zero_or_pos n with rfl | h
    · simp
    · rw [digits_pos h]
      intro d hd
      rcases List.mem_append.mp hd with hd | hd
      · exact ih (n / 10) (by omega) d hd
      · rw [List.mem_singleton] at hd
        have := digit_toNat (Nat.mod_lt n (show 0 < 10 by decide))
        rw [hd, IsDigit]
        omega

theorem value_digits (n : Nat) : value (digits n) = n := by
  induction n using Nat.strong_induction_on with
  | _ n ih =>
    rcases Nat.eq_zero_or_pos n with rfl | h
    · rw [digits_zero]
      rfl
    · rw [digits_pos h, value_append, ih (n / 10) (by omega), digit_toNat (Nat.mod_lt n (by decide))]
      omega

theorem digits_ne_nil {n : Nat} (h : 0 < n) : digits n ≠ [] := by
  rw [digits_pos h]
  simp

/-- The first digit of a positive number is not zero. -/
theorem digits_head {n : Nat} (h : 0 < n) : (digits n).head? ≠ some 48 := by
  induction n using Nat.strong_induction_on with
  | _ n ih =>
    rw [digits_pos h]
    rcases Nat.eq_zero_or_pos (n / 10) with h₀ | h₁
    · rw [h₀, digits_zero, List.nil_append, List.head?_cons, ne_eq, Option.some.injEq]
      intro he
      have hd := digit_toNat (Nat.mod_lt n (show 0 < 10 by decide))
      rw [he] at hd
      change 48 = 48 + n % 10 at hd
      omega
    · rw [List.head?_append_of_ne_nil _ (digits_ne_nil h₁)]
      exact ih (n / 10) (by omega) h₁

/-- The digits of a number, one digit for zero. -/
def numeral (n : Nat) : List (BitVec 8) := if n = 0 then [48] else digits n

theorem canonical_numeral (a : Int) :
    Canonical ((if a < 0 then [45] else []) ++ numeral a.natAbs) a := by
  refine ⟨numeral a.natAbs, rfl, ?_⟩
  rw [numeral]
  split_ifs with h
  · rw [h]
    refine ⟨by simp, fun d hd => ?_, fun _ => rfl, rfl⟩
    rw [List.mem_singleton.mp hd]
    exact ⟨by decide, by decide⟩
  · have hpos : 0 < a.natAbs := Nat.pos_of_ne_zero h
    exact ⟨digits_ne_nil hpos, digits_isDigit _, fun hh => absurd hh (digits_head hpos),
      value_digits _⟩

end Mks.Decimal
