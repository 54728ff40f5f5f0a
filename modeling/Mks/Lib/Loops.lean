import Mks.Lib.X86

set_option autoImplicit false

/-! # Loops of 32-bit code

Code with jumps over a flat memory: blocks of instructions at labels, registers, the zero flag and
the system registers of the descriptor table and of paging. `reaches_loop` is the rule for a loop
with an invariant that counts the turns; `fill_loop` uses it for a loop that counts `ecx` down and
stores a row of dwords.
-/

namespace Mks.Loops

open StateTransition X86

structure Machine where
  reg : Reg → Dword
  /-- The dword at each address; accesses are at multiples of four. -/
  mem : Dword → Dword
  zf : Bool
  cr0 : Dword
  cr3 : Dword
  /-- The limit and the base of the descriptor table. -/
  idtr : BitVec 16 × Dword

/-- The instructions, over the labels `L` of a program. -/
inductive Instr (L : Type)
  /-- `mov r, w` -/
  | movImm (r : Reg) (w : Dword)
  /-- `mov r, s`, of the low halves -/
  | movLow (r s : Reg)
  /-- `mov r, w`, of the low half -/
  | movLowImm (r : Reg) (w : BitVec 16)
  /-- `mov [a + d], r` -/
  | store (a : Reg) (d : Dword) (r : Reg)
  /-- `add r, w` -/
  | addImm (r : Reg) (w : Dword)
  /-- `or r, w` -/
  | orImm (r : Reg) (w : Dword)
  | dec (r : Reg)
  /-- `cmp r, w` -/
  | cmpImm (r : Reg) (w : Dword)
  | je (l : L)
  | jne (l : L)
  | jmp (l : L)
  /-- `lidt [descr]` -/
  | lidt (descr : BitVec 16 × Dword)
  /-- `mov cr3, r` -/
  | movCr3 (r : Reg)
  /-- `mov r, cr0` -/
  | readCr0 (r : Reg)
  /-- `mov cr0, r` -/
  | movCr0 (r : Reg)
  | ret
deriving DecidableEq

namespace Machine

variable (m : Machine)

def setReg (r : Reg) (w : Dword) : Machine := { m with reg := Function.update m.reg r w }

/-- The result of an instruction that sets the flag too. -/
def setResult (r : Reg) (w : Dword) : Machine := { m.setReg r w with zf := decide (w = 0) }

end Machine

variable {L : Type} (code : L → List (Instr L))

/-- One instruction, `is` the ones after it. Control leaves the code at `ret`. -/
def Instr.exec (is : List (Instr L)) (m : Machine) : Instr L → Option (List (Instr L) × Machine)
  | movImm r w => some (is, m.setReg r w)
  | movLow r s => some (is, m.setReg r ((m.reg r).extractLsb' 16 16 ++ (m.reg s).extractLsb' 0 16))
  | movLowImm r w => some (is, m.setReg r ((m.reg r).extractLsb' 16 16 ++ w))
  | store a d r => some (is, { m with mem := Function.update m.mem (m.reg a + d) (m.reg r) })
  | addImm r w => some (is, m.setResult r (m.reg r + w))
  | orImm r w => some (is, m.setResult r (m.reg r ||| w))
  | dec r => some (is, m.setResult r (m.reg r - 1))
  | cmpImm r w => some (is, { m with zf := decide (m.reg r - w = 0) })
  | je l => some (if m.zf then code l else is, m)
  | jne l => some (if m.zf then is else code l, m)
  | jmp l => some (code l, m)
  | lidt descr => some (is, { m with idtr := descr })
  | movCr3 r => some (is, { m with cr3 := m.reg r })
  | readCr0 r => some (is, m.setReg r m.cr0)
  | movCr0 r => some (is, { m with cr0 := m.reg r })
  | ret => none

def step : List (Instr L) × Machine → Option (List (Instr L) × Machine)
  | ([], _) => none
  | (i :: is, m) => i.exec code is m

variable {code}

/-! ## The rule for loops -/

/-- If turn `k` takes the invariant `I k` to `I (k + 1)`, then `n` turns take `I 0` to `I n`. -/
theorem reaches_loop {loop : L} {n : Nat} {I : Nat → Machine → Prop}
    (hturn : ∀ k < n, ∀ m, I k m →
      ∃ m', Reaches (step code) (code loop, m) (code loop, m') ∧ I (k + 1) m')
    {m : Machine} (hm : I 0 m) :
    ∃ m', Reaches (step code) (code loop, m) (code loop, m') ∧ I n m' := by
  induction n with
  | zero => exact ⟨m, .refl, hm⟩
  | succ n ih =>
      obtain ⟨m₁, h₁, hI⟩ := ih fun k hk => hturn k (by omega)
      obtain ⟨m₂, h₂, hI⟩ := hturn n (by omega) m₁ hI
      exact ⟨m₂, h₁.trans h₂, hI⟩

/-! ## Counters -/

theorem counter_dec {n k : Nat} (hk : k < n) :
    BitVec.ofNat 32 (n - k) - 1 = BitVec.ofNat 32 (n - (k + 1)) := by
  obtain ⟨d, rfl⟩ := Nat.exists_eq_add_of_lt hk
  rw [show k + d + 1 - k = d + 1 by omega, show k + d + 1 - (k + 1) = d by omega, BitVec.ofNat_add]
  exact add_sub_cancel_right _ _

theorem counter_ne_zero {d : Nat} (hd : 0 < d) (hd' : d < 2 ^ 32) : BitVec.ofNat 32 d ≠ 0 := by
  intro h
  have h := congrArg BitVec.toNat h
  rw [BitVec.toNat_ofNat, Nat.mod_eq_of_lt hd'] at h
  exact hd.ne' h

/-! ## Rows of dwords -/

/-- The memory with `v 0`, …, `v (n - 1)` stored from `a` on. -/
def fill (mem : Dword → Dword) (a : Dword) (v : Nat → Dword) : Nat → Dword → Dword
  | 0 => mem
  | n + 1 => Function.update (fill mem a v n) (a + BitVec.ofNat 32 (4 * n)) (v n)

theorem fill_inside {mem : Dword → Dword} {a : Dword} {v : Nat → Dword} {n i : Nat}
    (hn : 4 * n < 2 ^ 32) (hi : i < n) : fill mem a v n (a + BitVec.ofNat 32 (4 * i)) = v i := by
  induction n with
  | zero => omega
  | succ n ih =>
      rw [fill]
      rcases Nat.lt_succ_iff_lt_or_eq.mp hi with hlt | rfl
      · rw [Function.update_of_ne, ih (by omega) hlt]
        intro h
        have h := congrArg BitVec.toNat (add_left_cancel h)
        simp only [BitVec.toNat_ofNat] at h
        omega
      · exact Function.update_self ..

theorem fill_outside {mem : Dword → Dword} {a x : Dword} {v : Nat → Dword} {n : Nat}
    (hx : ∀ i < n, x ≠ a + BitVec.ofNat 32 (4 * i)) : fill mem a v n x = mem x := by
  induction n with
  | zero => rfl
  | succ n ih =>
      rw [fill, Function.update_of_ne (hx n (by omega))]
      exact ih fun i hi => hx i (by omega)

/-- The invariant of a loop that stores `v + k * w` from `a` on, `n` times: before turn `k`. -/
structure Filling (m₀ : Machine) (w : Dword) (n k : Nat) (m : Machine) : Prop where
  eax : m.reg .eax = m₀.reg .eax + BitVec.ofNat 32 (4 * k)
  ebx : m.reg .ebx = m₀.reg .ebx + BitVec.ofNat 32 k * w
  ecx : m.reg .ecx = BitVec.ofNat 32 (n - k)
  mem : m.mem = fill m₀.mem (m₀.reg .eax) (fun i => m₀.reg .ebx + BitVec.ofNat 32 i * w) k
  cr0 : m.cr0 = m₀.cr0
  idtr : m.idtr = m₀.idtr

/-- What the body of such a loop does. -/
structure Stores (w : Dword) (m m' : Machine) : Prop where
  eax : m'.reg .eax = m.reg .eax + 4
  ebx : m'.reg .ebx = m.reg .ebx + w
  ecx : m'.reg .ecx = m.reg .ecx
  mem : m'.mem = Function.update m.mem (m.reg .eax) (m.reg .ebx)
  cr0 : m'.cr0 = m.cr0
  idtr : m'.idtr = m.idtr

/-- The head of a loop over `ecx`: the test and the jump out of it. -/
theorem reaches_test (code : L → List (Instr L)) (done : L) (is : List (Instr L)) (m : Machine) :
    Reaches (step code) (.cmpImm .ecx 0 :: .je done :: is, m)
      (if m.reg .ecx = 0 then code done else is, { m with zf := decide (m.reg .ecx = 0) }) := by
  have hcmp : step code (.cmpImm .ecx 0 :: .je done :: is, m) =
      some (.je done :: is, { m with zf := decide (m.reg .ecx = 0) }) := by
    simp [step, Instr.exec]
  have hje : step code (.je done :: is, { m with zf := decide (m.reg .ecx = 0) }) =
      some (if m.reg .ecx = 0 then code done else is,
        { m with zf := decide (m.reg .ecx = 0) }) := by
    simp [step, Instr.exec]
  exact .head hcmp (.head hje .refl)

theorem Filling.turn {m₀ m m' : Machine} {w : Dword} {n k : Nat} (hk : k < n)
    (hI : Filling m₀ w n k m) (hs : Stores w m m') :
    Filling m₀ w n (k + 1) (m'.setResult .ecx (m'.reg .ecx - 1)) where
  eax := by
    show m'.reg .eax = _
    rw [hs.eax, hI.eax, add_assoc, Nat.mul_succ, BitVec.ofNat_add]
    rfl
  ebx := by
    show m'.reg .ebx = _
    rw [hs.ebx, hI.ebx, add_assoc, BitVec.ofNat_add, add_mul]
    show _ = m₀.reg .ebx + (BitVec.ofNat 32 k * w + (1 : Dword) * w)
    rw [one_mul]
  ecx := by
    show m'.reg .ecx - 1 = _
    rw [hs.ecx, hI.ecx, counter_dec hk]
  mem := by
    show m'.mem = _
    rw [hs.mem, hI.mem, hI.eax, hI.ebx, fill]
  cr0 := hs.cr0.trans hI.cr0
  idtr := hs.idtr.trans hI.idtr

/-- **A loop that fills.** Its body stores `ebx` at `eax` and adds `w` and 4 to them, in some
order. -/
theorem fill_loop (loop done : L) {body : List (Instr L)} {w : Dword}
    (hcode : code loop = .cmpImm .ecx 0 :: .je done :: (body ++ [.dec .ecx, .jmp loop]))
    (hbody : ∀ (m : Machine) (rest : List (Instr L)), ∃ m',
      Reaches (step code) (body ++ rest, m) (rest, m') ∧ Stores w m m')
    {n : Nat} (hn : n < 2 ^ 32) (m : Machine) (hecx : m.reg .ecx = BitVec.ofNat 32 n) :
    ∃ m', Reaches (step code) (code loop, m) (code done, m') ∧
      m'.cr0 = m.cr0 ∧ m'.idtr = m.idtr ∧
      m'.mem = fill m.mem (m.reg .eax) (fun i => m.reg .ebx + BitVec.ofNat 32 i * w) n := by
  have hstart : Filling m w n 0 m := ⟨by simp, by simp, by simpa using hecx, rfl, rfl, rfl⟩
  have hturn : ∀ k < n, ∀ m₁, Filling m w n k m₁ →
      ∃ m', Reaches (step code) (code loop, m₁) (code loop, m') ∧ Filling m w n (k + 1) m' := by
    intro k hk m₁ hI
    have hne : m₁.reg .ecx ≠ 0 := by
      rw [hI.ecx]
      exact counter_ne_zero (by omega) (by omega)
    have htest := reaches_test code done (body ++ [.dec .ecx, .jmp loop]) m₁
    rw [if_neg hne, ← hcode] at htest
    obtain ⟨m₂, h₂, hs⟩ := hbody { m₁ with zf := decide (m₁.reg .ecx = 0) }
      [.dec .ecx, .jmp loop]
    have hs : Stores w m₁ m₂ := ⟨hs.eax, hs.ebx, hs.ecx, hs.mem, hs.cr0, hs.idtr⟩
    exact ⟨_, htest.trans (h₂.trans (.head rfl (.head rfl .refl))), hI.turn hk hs⟩
  obtain ⟨m₁, h₁, hI⟩ := reaches_loop hturn hstart
  have hzero : m₁.reg .ecx = 0 := by rw [hI.ecx, Nat.sub_self]; rfl
  have htest := reaches_test code done (body ++ [.dec .ecx, .jmp loop]) m₁
  rw [if_pos hzero, ← hcode] at htest
  exact ⟨_, h₁.trans htest, hI.cr0, hI.idtr, hI.mem⟩

end Mks.Loops
