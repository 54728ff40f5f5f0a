import Mathlib.Computability.StateTransition
import Mathlib.Data.BitVec
import Mathlib.Logic.Function.Basic
import Mathlib.Tactic

set_option autoImplicit false

/-! # Straight stack code of a 32-bit x86

The instructions that entry code uses to build a frame on the stack and to take it down again.
`step` is one instruction of the machine; control leaves the code at a call and at `iret`, where
`step` has no next state. `symStep` runs the same code over a list of the dwords the code itself has
put on the stack, so that it evaluates by `rfl`; `reaches_of_symRun` carries such an evaluation over
to the machine.
-/

namespace Mks.X86

open StateTransition

abbrev Dword := BitVec 32
abbrev Selector := BitVec 16

/-- The general registers. The stack pointer is a field of its own. -/
inductive Reg
  | eax | ebx | ecx | edx | esi | edi | ebp
deriving DecidableEq

inductive Seg
  | ds | es | fs
deriving DecidableEq

/-- Every access of the code below is a dword, at a multiple of four from the stack pointer: the
memory is the dword at each address. -/
structure Machine where
  reg : Reg → Dword
  esp : Dword
  seg : Seg → Selector
  mem : Dword → Dword

/-- The instructions, over the labels `L` of a program. -/
inductive Instr (L : Type)
  /-- `pushl $w` -/
  | pushImm (w : Dword)
  /-- `pushl r` -/
  | push (r : Reg)
  /-- `popl r` -/
  | pop (r : Reg)
  /-- `push s`, of a segment register -/
  | pushSeg (s : Seg)
  /-- `pop s` -/
  | popSeg (s : Seg)
  /-- `xchgl r, d(%esp)` -/
  | xchg (r : Reg) (d : Dword)
  /-- `movl d(%esp), r` -/
  | load (d : Dword) (r : Reg)
  /-- `lea d(%esp), r` -/
  | lea (d : Dword) (r : Reg)
  /-- `movl $w, r` -/
  | movImm (w : Dword) (r : Reg)
  /-- `movl %esp, r` -/
  | movEsp (r : Reg)
  /-- `mov r, s`, of the low half of `r` to a segment register -/
  | movSeg (r : Reg) (s : Seg)
  /-- `andl $w, r` -/
  | andImm (w : Dword) (r : Reg)
  /-- `addl $w, %esp` -/
  | addEsp (w : Dword)
  /-- `jmp l` -/
  | jmp (l : L)
  /-- `call l` -/
  | call (l : L)
  /-- `call *table(, r, 4)` -/
  | callTable (r : Reg)
  | iret
deriving DecidableEq

/-- Where control is, the rest of a block, and the machine. -/
abbrev Config (L : Type) := List (Instr L) × Machine

/-! ## The machine -/

namespace Machine

def push (m : Machine) (w : Dword) : Machine :=
  { m with esp := m.esp - 4, mem := Function.update m.mem (m.esp - 4) w }

def setReg (m : Machine) (r : Reg) (w : Dword) : Machine :=
  { m with reg := Function.update m.reg r w }

def setSeg (m : Machine) (s : Seg) (x : Selector) : Machine :=
  { m with seg := Function.update m.seg s x }

def store (m : Machine) (a w : Dword) : Machine :=
  { m with mem := Function.update m.mem a w }

/-- Dword `k` of the stack, counted from the top. -/
def top (m : Machine) (k : Nat) : Dword := m.mem (m.esp + BitVec.ofNat 32 (4 * k))

end Machine

variable {L : Type} (code : L → List (Instr L)) (pad : Dword → BitVec 16)

/-- One instruction, `is` the ones after it. A selector is the low half of the dword that is pushed
for it; `pad` is what the processor leaves in the high half, given the dword that was there. -/
def Instr.exec (is : List (Instr L)) (m : Machine) : Instr L → Option (Config L)
  | pushImm w => some (is, m.push w)
  | push r => some (is, m.push (m.reg r))
  | pop r => some (is, { m.setReg r (m.mem m.esp) with esp := m.esp + 4 })
  | pushSeg s => some (is, m.push (pad (m.mem (m.esp - 4)) ++ m.seg s))
  | popSeg s => some (is, { m.setSeg s ((m.mem m.esp).setWidth 16) with esp := m.esp + 4 })
  | xchg r d =>
      some (is, (m.store (m.esp + d) (m.reg r)).setReg r (m.mem (m.esp + d)))
  | load d r => some (is, m.setReg r (m.mem (m.esp + d)))
  | lea d r => some (is, m.setReg r (m.esp + d))
  | movImm w r => some (is, m.setReg r w)
  | movEsp r => some (is, m.setReg r m.esp)
  | movSeg r s => some (is, m.setSeg s ((m.reg r).setWidth 16))
  | andImm w r => some (is, m.setReg r (m.reg r &&& w))
  | addEsp w => some (is, { m with esp := m.esp + w })
  | jmp l => some (code l, m)
  | call _ | callTable _ | iret => none

def step : Config L → Option (Config L)
  | ([], _) => none
  | (i :: is, m) => i.exec code pad is m

/-! ## The stack as a list -/

/-- What is known of a dword of the stack. -/
inductive Cell
  | word (w : Dword)
  | sel (s : Selector)
  | any

def Cell.Is : Cell → Dword → Prop
  | word w, x => x = w
  | sel s, x => x.setWidth 16 = s
  | any, _ => True

/-- The machine with its stack as a list, top first. -/
structure Sym where
  reg : Reg → Dword
  esp : Dword
  seg : Seg → Selector
  stack : List Cell

/-- A stack of at most this many dwords does not wrap around. -/
def DEPTH : Nat := 1024

namespace Sym

def push (s : Sym) (c : Cell) : Option Sym :=
  if s.stack.length < DEPTH then some { s with esp := s.esp - 4, stack := c :: s.stack } else none

def setReg (s : Sym) (r : Reg) (w : Dword) : Sym := { s with reg := Function.update s.reg r w }

def setSeg (s : Sym) (x : Seg) (v : Selector) : Sym := { s with seg := Function.update s.seg x v }

/-- The dword at displacement `d` from the stack pointer, if it is known. -/
def read (s : Sym) (d : Dword) : Option Dword :=
  if d.toNat % 4 = 0 then
    match s.stack[d.toNat / 4]? with
    | some (.word w) => some w
    | _ => none
  else none

end Sym

/-- `Instr.exec` over a list. An access to what is not in the list, or not known, has no result. -/
def Instr.symExec (is : List (Instr L)) (s : Sym) : Instr L → Option (List (Instr L) × Sym)
  | pushImm w => (s.push (.word w)).map (is, ·)
  | push r => (s.push (.word (s.reg r))).map (is, ·)
  | pop r =>
      match s.stack with
      | .word w :: t => some (is, { s.setReg r w with esp := s.esp + 4, stack := t })
      | _ => none
  | pushSeg x => (s.push (.sel (s.seg x))).map (is, ·)
  | popSeg x =>
      match s.stack with
      | .sel v :: t => some (is, { s.setSeg x v with esp := s.esp + 4, stack := t })
      | _ => none
  | xchg r d =>
      (s.read d).map fun w =>
        (is, { s.setReg r w with stack := s.stack.set (d.toNat / 4) (.word (s.reg r)) })
  | load d r => (s.read d).map fun w => (is, s.setReg r w)
  | lea d r => some (is, s.setReg r (s.esp + d))
  | movImm w r => some (is, s.setReg r w)
  | movEsp r => some (is, s.setReg r s.esp)
  | movSeg r x => some (is, s.setSeg x ((s.reg r).setWidth 16))
  | andImm w r => some (is, s.setReg r (s.reg r &&& w))
  | addEsp w =>
      if w.toNat % 4 = 0 then
        some (is, { s with esp := s.esp + w, stack := s.stack.drop (w.toNat / 4) })
      else none
  | jmp l => some (code l, s)
  | call _ | callTable _ | iret => none

def symStep : List (Instr L) × Sym → Option (List (Instr L) × Sym)
  | ([], _) => none
  | (i :: is, s) => i.symExec code is s

/-- `n` steps over a list. -/
def symRun : Nat → List (Instr L) × Sym → Option (List (Instr L) × Sym)
  | 0, c => some c
  | n + 1, c => (symStep code c).bind (symRun n)

/-! ## The list stands for the stack -/

/-- The list `l` is the top of the stack at `a`. -/
def Holds (mem : Dword → Dword) (a : Dword) (l : List Cell) : Prop :=
  ∀ (k : Nat) (c : Cell), l[k]? = some c → c.Is (mem (a + BitVec.ofNat 32 (4 * k)))

structure Models (m : Machine) (s : Sym) : Prop where
  reg : m.reg = s.reg
  esp : m.esp = s.esp
  seg : m.seg = s.seg
  depth : s.stack.length ≤ DEPTH
  holds : Holds m.mem s.esp s.stack

variable {code} {mem : Dword → Dword} {a w : Dword} {c : Cell} {l : List Cell} {m m' : Machine}
  {s s' : Sym} {is is' : List (Instr L)}

/-- Two dwords of the stack are apart. -/
theorem slot_ne {j k : Nat} (hj : j ≤ DEPTH) (hk : k ≤ DEPTH) (h : j ≠ k) (a : Dword) :
    a + BitVec.ofNat 32 (4 * j) ≠ a + BitVec.ofNat 32 (4 * k) := by
  intro he
  have hm := congrArg BitVec.toNat (add_left_cancel he)
  simp only [BitVec.toNat_ofNat, DEPTH] at hm hj hk
  omega

/-- A displacement is a number of dwords. -/
theorem slot_add (a : Dword) {d : Dword} (hd : d.toNat % 4 = 0) (k : Nat) :
    a + d + BitVec.ofNat 32 (4 * k) = a + BitVec.ofNat 32 (4 * (d.toNat / 4 + k)) := by
  have h : BitVec.ofNat 32 (4 * (d.toNat / 4 + k)) = d + BitVec.ofNat 32 (4 * k) := by
    rw [mul_add, Nat.mul_div_cancel' (Nat.dvd_of_mod_eq_zero hd), BitVec.ofNat_add,
      BitVec.ofNat_toNat, BitVec.setWidth_eq]
  rw [h, add_assoc]

theorem slot_at (a : Dword) {d : Dword} (hd : d.toNat % 4 = 0) :
    a + d = a + BitVec.ofNat 32 (4 * (d.toNat / 4)) := by
  simpa using slot_add a hd 0

/-- Dword `k` is dword `k + 1` once another one is on top. -/
theorem slot_succ (a : Dword) (k : Nat) :
    a + BitVec.ofNat 32 (4 * (k + 1)) = a + 4 + BitVec.ofNat 32 (4 * k) := by
  rw [slot_add (d := 4) a rfl k, add_comm k]
  rfl

/-- The stack pointer `a` after `n` pushes. -/
def lower : Nat → Dword → Dword
  | 0, a => a
  | n + 1, a => lower n a - 4

theorem lower_add (n : Nat) (a e : Dword) : lower n a + (BitVec.ofNat 32 (4 * n) + e) = a + e := by
  induction n with
  | zero => simp [lower]
  | succ n ih => rw [← add_assoc, slot_succ, lower, sub_add_cancel, add_assoc, ih]

namespace Holds

theorem nil : Holds mem a [] := by simp [Holds]

theorem cons (hc : c.Is (mem a)) (h : Holds mem (a + 4) l) : Holds mem a (c :: l) := by
  intro k x hx
  cases k with
  | zero => simp_all
  | succ k =>
      rw [slot_succ]
      exact h k x hx

theorem head (h : Holds mem a (c :: l)) : c.Is (mem a) := by simpa using h 0 c rfl

theorem drop (h : Holds mem a l) {d : Dword} (hd : d.toNat % 4 = 0) :
    Holds mem (a + d) (l.drop (d.toNat / 4)) := by
  intro k x hx
  rw [slot_add a hd k]
  exact h _ x (by simpa using hx)

/-- A dword is put on top. -/
theorem push (h : Holds mem a l) (hl : l.length < DEPTH) (hc : c.Is w) :
    Holds (Function.update mem (a - 4) w) (a - 4) (c :: l) := by
  intro k x hx
  cases k with
  | zero => simp_all
  | succ k =>
      obtain ⟨hk, -⟩ := List.getElem?_eq_some_iff.mp hx
      have hne := slot_ne (j := k + 1) (k := 0) (by simp at hk; omega) (by simp) (by simp) (a - 4)
      rw [Function.update_of_ne (by simpa using hne), slot_succ, sub_add_cancel]
      exact h k x hx

/-- A dword is overwritten. -/
theorem set (h : Holds mem a l) (hl : l.length ≤ DEPTH) (hc : c.Is w) {d : Dword}
    (hd : d.toNat % 4 = 0) (hj : d.toNat / 4 < l.length) :
    Holds (Function.update mem (a + d) w) a (l.set (d.toNat / 4) c) := by
  intro k x hx
  rw [slot_at a hd]
  by_cases hk : k = d.toNat / 4
  · subst hk
    rw [List.getElem?_set_self hj] at hx
    obtain rfl := Option.some.inj hx
    simpa using hc
  · rw [List.getElem?_set_ne (Ne.symm hk)] at hx
    obtain ⟨hkl, -⟩ := List.getElem?_eq_some_iff.mp hx
    rw [Function.update_of_ne (slot_ne (by omega) (by omega) hk a)]
    exact h k x hx

end Holds

theorem Sym.read_eq {d : Dword} (h : s.read d = some w) :
    d.toNat % 4 = 0 ∧ s.stack[d.toNat / 4]? = some (.word w) := by
  unfold Sym.read at h
  split at h
  · next hd =>
    refine ⟨hd, ?_⟩
    split at h
    · next hw => rw [hw, Option.some.inj h]
    · cases h
  · cases h

theorem Models.read {d : Dword} (hm : Models m s) (h : s.read d = some w) :
    m.mem (m.esp + d) = w := by
  obtain ⟨hd, hs⟩ := Sym.read_eq h
  rw [hm.esp, slot_at _ hd]
  exact hm.holds _ _ hs

/-- What is on top. -/
theorem Models.head (hm : Models m s) (h : s.stack = c :: l) : c.Is (m.mem m.esp) := by
  have hh := hm.holds
  rw [h, ← hm.esp] at hh
  exact hh.head

theorem Sym.push_eq (h : s.push c = some s') :
    s.stack.length < DEPTH ∧ s' = { s with esp := s.esp - 4, stack := c :: s.stack } := by
  unfold Sym.push at h
  split at h
  · next hl => exact ⟨hl, (Option.some.inj h).symm⟩
  · cases h

theorem holds_push (h : Holds m.mem m.esp l) (hl : l.length < DEPTH) (hc : c.Is w) :
    Holds (m.push w).mem (m.push w).esp (c :: l) := h.push hl hc

theorem Models.push (hm : Models m s) (hc : c.Is w) (h : s.push c = some s') :
    Models (m.push w) s' := by
  obtain ⟨hl, rfl⟩ := Sym.push_eq h
  constructor
  · exact hm.reg
  · simp [Machine.push, hm.esp]
  · exact hm.seg
  · exact hl
  · simpa [Machine.push, hm.esp] using hm.holds.push hl hc

theorem Models.setReg (hm : Models m s) (r : Reg) (w : Dword) :
    Models (m.setReg r w) (s.setReg r w) := by
  constructor
  · simp [Machine.setReg, Sym.setReg, hm.reg]
  · exact hm.esp
  · exact hm.seg
  · exact hm.depth
  · exact hm.holds

theorem Models.setSeg (hm : Models m s) (x : Seg) (v : Selector) :
    Models (m.setSeg x v) (s.setSeg x v) := by
  constructor
  · exact hm.reg
  · exact hm.esp
  · simp [Machine.setSeg, Sym.setSeg, hm.seg]
  · exact hm.depth
  · exact hm.holds

/-- The stack pointer moves up. -/
theorem Models.addEsp (hm : Models m s) {d : Dword} (hd : d.toNat % 4 = 0) :
    Models { m with esp := m.esp + d }
      { s with esp := s.esp + d, stack := s.stack.drop (d.toNat / 4) } := by
  constructor
  · exact hm.reg
  · simp [hm.esp]
  · exact hm.seg
  · simpa using hm.depth.trans (Nat.le_add_right _ _)
  · exact hm.holds.drop hd

theorem Models.store (hm : Models m s) {d : Dword} (hd : d.toNat % 4 = 0)
    (hj : d.toNat / 4 < s.stack.length) (hc : c.Is w) :
    Models (m.store (m.esp + d) w) { s with stack := s.stack.set (d.toNat / 4) c } := by
  constructor
  · exact hm.reg
  · exact hm.esp
  · exact hm.seg
  · simpa using hm.depth
  · rw [hm.esp]
    exact hm.holds.set hm.depth hc hd hj

/-- **One instruction.** What the list says after it is so of the machine after it. -/
theorem exec_of_symExec (hm : Models m s) {i : Instr L} (h : i.symExec code is s = some (is', s')) :
    ∃ m', i.exec code pad is m = some (is', m') ∧ Models m' s' := by
  cases i with
  -- what is pushed is known
  | pushImm w =>
      obtain ⟨t, ht, heq⟩ := Option.map_eq_some_iff.mp h
      obtain ⟨rfl, rfl⟩ := Prod.mk.inj heq
      exact ⟨_, rfl, hm.push (c := .word w) rfl ht⟩
  | push r =>
      obtain ⟨t, ht, heq⟩ := Option.map_eq_some_iff.mp h
      obtain ⟨rfl, rfl⟩ := Prod.mk.inj heq
      exact ⟨_, rfl, hm.push (c := .word (s.reg r)) (congrFun hm.reg r) ht⟩
  | pushSeg x =>
      obtain ⟨t, ht, heq⟩ := Option.map_eq_some_iff.mp h
      obtain ⟨rfl, rfl⟩ := Prod.mk.inj heq
      refine ⟨_, rfl, hm.push ?_ ht⟩
      rw [← hm.seg]
      exact BitVec.setWidth_append_eq_right
  -- what is popped is on top
  | pop r =>
      simp only [Instr.symExec] at h
      split at h
      · next w t hs =>
        obtain ⟨rfl, rfl⟩ := Prod.mk.inj (Option.some.inj h)
        have hw : m.mem m.esp = w := hm.head hs
        have h4 := (hm.setReg r w).addEsp (d := 4) rfl
        refine ⟨_, rfl, ?_⟩
        rw [hw]
        simpa [Sym.setReg, Machine.setReg, hs] using h4
      · cases h
  | popSeg x =>
      simp only [Instr.symExec] at h
      split at h
      · next v t hs =>
        obtain ⟨rfl, rfl⟩ := Prod.mk.inj (Option.some.inj h)
        have hv : (m.mem m.esp).setWidth 16 = v := hm.head hs
        have h4 := (hm.setSeg x v).addEsp (d := 4) rfl
        refine ⟨_, rfl, ?_⟩
        rw [hv]
        simpa [Sym.setSeg, Machine.setSeg, hs] using h4
      · cases h
  -- what is read is at its place
  | xchg r d =>
      obtain ⟨w, hr, heq⟩ := Option.map_eq_some_iff.mp h
      obtain ⟨rfl, rfl⟩ := Prod.mk.inj heq
      obtain ⟨hd, hs⟩ := Sym.read_eq hr
      obtain ⟨hj, -⟩ := List.getElem?_eq_some_iff.mp hs
      refine ⟨_, rfl, ?_⟩
      rw [hm.read hr, hm.reg]
      exact (hm.store (c := .word (s.reg r)) hd hj rfl).setReg r w
  | load d r =>
      obtain ⟨w, hr, heq⟩ := Option.map_eq_some_iff.mp h
      obtain ⟨rfl, rfl⟩ := Prod.mk.inj heq
      refine ⟨_, rfl, ?_⟩
      rw [hm.read hr]
      exact hm.setReg r w
  -- the stack is not touched
  | lea d r =>
      obtain ⟨rfl, rfl⟩ := Prod.mk.inj (Option.some.inj h)
      refine ⟨_, rfl, ?_⟩
      rw [hm.esp]
      exact hm.setReg r _
  | movImm w r =>
      obtain ⟨rfl, rfl⟩ := Prod.mk.inj (Option.some.inj h)
      exact ⟨_, rfl, hm.setReg r w⟩
  | movEsp r =>
      obtain ⟨rfl, rfl⟩ := Prod.mk.inj (Option.some.inj h)
      refine ⟨_, rfl, ?_⟩
      rw [hm.esp]
      exact hm.setReg r _
  | movSeg r x =>
      obtain ⟨rfl, rfl⟩ := Prod.mk.inj (Option.some.inj h)
      refine ⟨_, rfl, ?_⟩
      rw [hm.reg]
      exact hm.setSeg x _
  | andImm w r =>
      obtain ⟨rfl, rfl⟩ := Prod.mk.inj (Option.some.inj h)
      refine ⟨_, rfl, ?_⟩
      rw [hm.reg]
      exact hm.setReg r _
  | addEsp w =>
      simp only [Instr.symExec] at h
      split at h
      · next hd =>
        obtain ⟨rfl, rfl⟩ := Prod.mk.inj (Option.some.inj h)
        exact ⟨_, rfl, hm.addEsp hd⟩
      · cases h
  | jmp l =>
      obtain ⟨rfl, rfl⟩ := Prod.mk.inj (Option.some.inj h)
      exact ⟨_, rfl, hm⟩
  -- control leaves the code
  | call l => cases h
  | callTable r => cases h
  | iret => cases h

/-- **A run.** The machine goes where the list goes, and the list is still its stack. -/
theorem reaches_of_symRun {n : Nat} (hm : Models m s)
    (h : symRun code n (is, s) = some (is', s')) :
    ∃ m', Reaches (step code pad) (is, m) (is', m') ∧ Models m' s' := by
  -- on the number of steps, with the first one taken off
  induction n generalizing is s m with
  | zero =>
      obtain ⟨rfl, rfl⟩ := Prod.mk.inj (Option.some.inj h)
      exact ⟨m, .refl, hm⟩
  | succ n ih =>
      obtain ⟨⟨is₁, s₁⟩, h₁, hn⟩ := Option.bind_eq_some_iff.mp h
      cases is with
      | nil => cases h₁
      | cons i is =>
          obtain ⟨m₁, hs, hm₁⟩ := exec_of_symExec pad hm h₁
          obtain ⟨m₂, hr, hm₂⟩ := ih hm₁ hn
          exact ⟨m₂, .head hs hr, hm₂⟩

/-- Control leaves the code in one state. -/
theorem reaches_unique {pad : Dword → BitVec 16} {c c₁ c₂ : Config L}
    (h₁ : Reaches (step code pad) c c₁) (h₂ : Reaches (step code pad) c c₂)
    (e₁ : step code pad c₁ = none) (e₂ : step code pad c₂ = none) : c₁ = c₂ :=
  Part.mem_unique (mem_eval.mpr ⟨h₁, e₁⟩) (mem_eval.mpr ⟨h₂, e₂⟩)

end Mks.X86
