import Mks.Console.Printk
import Mks.Lib.Decimal

set_option autoImplicit false

/-! # The characters of `printa`, `printbin` and `printhex`

Each of these functions passes a list of characters, one after the other, to `write_char`, which does
not have a say in it. The list of `printa` is the decimal numeral of its argument, except for the
least `long`: its absolute value is `2^31`, and the mask with `0x7FFFFFFF` leaves nothing of that
(`printa_canonical`).
-/

namespace Mks.Console

open Decimal

section Writer

variable {σ : Type} (write : Byte → σ → Option σ)

/-- The characters of `l`, one after the other, to `write`. -/
def writeAll (l : List Byte) (s : σ) : Option σ := l.foldlM (fun s ch => write ch s) s

@[simp] theorem writeAll_nil (s : σ) : writeAll write [] s = some s := rfl

@[simp] theorem writeAll_cons (ch : Byte) (l : List Byte) (s : σ) :
    writeAll write (ch :: l) s = (write ch s).bind (writeAll write l) := by
  rw [writeAll, List.foldlM_cons]
  rfl

theorem writeAll_append (l l' : List Byte) (s : σ) :
    writeAll write (l ++ l') s = (writeAll write l s).bind (writeAll write l') := by
  rw [writeAll, List.foldlM_append]
  rfl

theorem writeAll_singleton (ch : Byte) (s : σ) : writeAll write [ch] s = write ch s := by
  rw [writeAll_cons]
  cases write ch s <;> rfl

/-! ## `printa` -/

/-- The character for the last digit of `a`. -/
theorem last_digit (a : Word) :
    ((a - a / 10 * 10 + 48).setWidth 8 : Byte) = digit (a.toNat % 10) := by
  have h10 : a - a / 10 * 10 = BitVec.ofNat 32 (a.toNat % 10) := by
    apply BitVec.eq_of_toNat_eq
    rw [BitVec.toNat_sub, BitVec.toNat_mul, BitVec.toNat_udiv, BitVec.toNat_ofNat]
    have := a.isLt
    simp only [BitVec.reduceToNat]
    omega
  apply BitVec.eq_of_toNat_eq
  rw [h10, digit, BitVec.toNat_setWidth, BitVec.toNat_add, BitVec.toNat_ofNat, BitVec.toNat_ofNat]
  simp only [BitVec.reduceToNat]
  omega

theorem printCharina_eq (a : Word) (s : σ) :
    printCharina write a s = writeAll write (digits a.toNat) s := by
  induction a using printCharina.induct generalizing s with
  | case1 => simp [printCharina]
  | case2 a h b hlt ih =>
    have hpos : 0 < a.toNat := Nat.pos_of_ne_zero fun h0 => h (BitVec.eq_of_toNat_eq h0)
    have hb : b.toNat = a.toNat / 10 := BitVec.toNat_udiv
    rw [printCharina, dif_neg h, digits_pos hpos, writeAll_append, ← last_digit, ← hb, ← ih]
    simp only [writeAll_singleton]
    rfl

/-- The number whose digits `printa` prints. -/
def printaAbs (a : Word) : Nat :=
  ((if a >>> 31 = 1 then ~~~(a - 1) else a) &&& 0x7FFFFFFF).toNat

/-- The characters of `printa a`. -/
def printaChars (a : Word) : List Byte :=
  (if a >>> 31 = 1 then [45] else []) ++ numeral (printaAbs a)

theorem printa_eq (a : Word) (s : σ) : printa write a s = writeAll write (printaChars a) s := by
  -- what follows the sign
  have tail (c : Word) (s : σ) :
      (if c = 0 then write 48 s else printCharina write c s) =
        writeAll write (numeral c.toNat) s := by
    by_cases h : c = 0
    · rw [if_pos h, h, ← writeAll_singleton write 48 s]
      rfl
    · have hn : c.toNat ≠ 0 := fun h0 => h (BitVec.eq_of_toNat_eq h0)
      rw [if_neg h, numeral, if_neg hn]
      exact printCharina_eq write c s
  by_cases h : a >>> 31 = 1
  · simp only [printa, printaChars, printaAbs, h, if_true, writeAll_append, writeAll_singleton]
    cases write 45 s with
    | none => rfl
    | some s => exact tail _ s
  · simp only [printa, printaChars, printaAbs, h, if_false, List.nil_append]
    exact tail _ s

end Writer

/-! ### The sign and the absolute value -/

/-- The top bit is the sign. -/
theorem sign_iff (a : Word) : a >>> 31 = 1 ↔ a.toInt < 0 := by
  have ha := a.isLt
  rw [BitVec.toInt_eq_toNat_cond, ← BitVec.toNat_inj, BitVec.toNat_ushiftRight,
    Nat.shiftRight_eq_div_pow]
  split_ifs with h
  · simp only [BitVec.reduceToNat]
    omega
  · simp only [BitVec.reduceToNat]
    omega

/-- The mask keeps the low 31 bits. -/
theorem mask_toNat (b : Word) : (b &&& 0x7FFFFFFF).toNat = b.toNat % 2 ^ 31 := by
  rw [BitVec.toNat_and]
  exact Nat.and_two_pow_sub_one_eq_mod b.toNat 31

theorem printaAbs_eq (a : Word) : printaAbs a = a.toInt.natAbs % 2 ^ 31 := by
  have ha := a.isLt
  have habs : (if a >>> 31 = 1 then ~~~(a - 1) else a).toNat = a.toInt.natAbs := by
    by_cases h : a >>> 31 = 1
    · have hneg := (sign_iff a).mp h
      rw [if_pos h]
      rw [BitVec.toInt_eq_toNat_cond] at hneg ⊢
      rw [BitVec.toNat_not, BitVec.toNat_sub]
      simp only [BitVec.reduceToNat]
      split_ifs at hneg ⊢ <;> omega
    · have hneg := mt (sign_iff a).mpr h
      rw [if_neg h]
      rw [BitVec.toInt_eq_toNat_cond] at hneg ⊢
      split_ifs at hneg ⊢ <;> omega
  rw [printaAbs, mask_toNat, habs]

/-- For every `long` but the least, `printa` prints the absolute value. -/
theorem printaAbs_eq_natAbs {a : Word} (h : a ≠ 0x80000000) : printaAbs a = a.toInt.natAbs := by
  have hlt : a.toInt.natAbs < 2 ^ 31 := by
    have ha := a.isLt
    have hne : a.toNat ≠ 2 ^ 31 := fun hn => h (BitVec.eq_of_toNat_eq hn)
    rw [BitVec.toInt_eq_toNat_cond]
    split_ifs <;> omega
  rw [printaAbs_eq, Nat.mod_eq_of_lt hlt]

/-- `printa a` passes its characters to `write_char`, and these are the canonical numeral of `a` if
and only if `a` is not the least `long`. -/
theorem printa_canonical (a : Word) :
    (∀ (σ : Type) (write : Byte → σ → Option σ) (s : σ),
      printa write a s = (printaChars a).foldlM (fun s ch => write ch s) s) ∧
      (Canonical (printaChars a) a.toInt ↔ a ≠ 0x80000000) := by
  refine ⟨fun σ write s => printa_eq write a s, ?_⟩
  constructor
  · rintro ⟨ds, hds, _, _, _, hv⟩ rfl
    -- the characters are those of "-0"
    have hcs : ds = [48] := by
      have h : printaChars 0x80000000 = [45] ++ [48] := by decide
      rw [h] at hds
      exact (List.append_cancel_left hds).symm
    rw [hcs] at hv
    exact absurd hv (by decide)
  · intro h
    have hc := canonical_numeral a.toInt
    rw [← printaAbs_eq_natAbs h] at hc
    rw [printaChars]
    simp only [sign_iff]
    exact hc

/-- `printa` prints "-0" for the least `long`. -/
theorem printa_least :
    printa (fun ch l => some (l ++ [ch])) 0x80000000 [] = some [45, 48] ∧
      ¬ Canonical [45, 48] (0x80000000 : Word).toInt := by
  refine ⟨by rw [printa_eq]; decide, ?_⟩
  rintro ⟨ds, hds, _, _, _, hv⟩
  have hcs : ds = [48] := by
    change [45] ++ [48] = [45] ++ ds at hds
    exact (List.append_cancel_left hds).symm
  rw [hcs] at hv
  exact absurd hv (by decide)

/-! ## `printbin` and `printhex` -/

/-- The characters of the loop of `printbin`. -/
def printbinChars : Nat → Word → List Byte
  | 0, _ => []
  | i + 1, ef => (if ef &&& 0x80000000 ≠ 0 then 49 else 48) :: printbinChars i (ef <<< 1)

theorem printbinLoop_eq {σ : Type} (write : Byte → σ → Option σ) (i : Nat) (ef : Word) (s : σ) :
    printbinLoop write i ef s = writeAll write (printbinChars i ef) s := by
  induction i generalizing ef s with
  | zero => rfl
  | succ i ih =>
    simp only [printbinLoop, printbinChars, writeAll_cons]
    split_ifs <;> exact congrArg _ (funext fun s => ih (ef <<< 1) s)

/-- The characters of the loop of `printhex`: the nibbles of `c`, the upper one first. -/
def printhexChars : Nat → Byte → List Byte
  | 0, _ => []
  | i + 1, c =>
    let c := (c <<< 4) ||| (c >>> 4)
    let tmp := c &&& 0x0F
    (if 9 < tmp then tmp - 10 + 65 else tmp + 48) :: printhexChars i c

theorem printhexLoop_eq (init : State → Option State) (i : Nat) (c : Byte) (s : State) :
    printhexLoop init i c s = writeAll (writeChar init) (printhexChars i c) s := by
  induction i generalizing c s with
  | zero => rfl
  | succ i ih =>
    have hloop (c : Byte) : printhexLoop init i c =
        writeAll (writeChar init) (printhexChars i c) := funext fun s => ih c s
    rw [printhexLoop, printhexChars, writeAll_cons]
    simp only [hloop]
    generalize ((c <<< 4 ||| c >>> 4) &&& 0x0F : Byte) = tmp
    -- a byte is greater than 9 or at most 9, so there is no third case
    by_cases h : (9 : Byte) < tmp
    · rw [if_pos h, if_pos h]
      rfl
    · have h9 : (0 : Byte) ≤ tmp ∧ tmp ≤ 9 := ⟨Nat.zero_le _, BitVec.not_lt.mp h⟩
      rw [if_neg h, if_pos h9, if_neg h]
      rfl

theorem printhex_eq (init : State → Option State) (c : Byte) (s : State) :
    printhex init c s = writeAll (writeChar init) (48 :: 120 :: printhexChars 2 c) s := by
  rw [printhex, writeAll_cons]
  have hloop : printhexLoop init 2 c = writeAll (writeChar init) (printhexChars 2 c) :=
    funext fun s => printhexLoop_eq init 2 c s
  rw [hloop]
  exact congrArg _ (funext fun s => (writeAll_cons _ _ _ s).symm)

end Mks.Console
