import Mks.Lib.X86

set_option autoImplicit false

/-! # Interrupt entry and exit (`kernel/asm.s`)

The stub of a vector pushes the number of the vector and jumps to `no_error_code` or
`with_error_code`. Both exchange what is on the stack for registers, save the other registers, call
the handler with three arguments, and take everything down again. Nothing in them looks at the
number: `no_error_code` takes what is above it for the saved `eip` (`no_error_code_call`),
`with_error_code` takes it for the error code (`with_error_code_call`).
-/

namespace Mks.Interrupt

open X86 StateTransition

inductive Label
  | intr (i : Nat) | hwintr (i : Nat)
  | intrMsg | intrKercall | intrReserved
  | noErrorCode | withErrorCode
  | doIntrMsg
deriving DecidableEq

/-! ## The code -/

/-- `pushl $n; jmp l` -/
def stub (n : Dword) (l : Label) : List (Instr Label) := [.pushImm n, .jmp l]

/-- `intr0` to `intr19` -/
def intr : List (List (Instr Label)) :=
  [ stub 0 .noErrorCode, stub 1 .noErrorCode, stub 2 .noErrorCode, stub 3 .noErrorCode,
    stub 4 .noErrorCode, stub 5 .noErrorCode, stub 6 .noErrorCode, stub 7 .noErrorCode,
    stub 8 .withErrorCode, stub 9 .noErrorCode, stub 10 .withErrorCode,
    stub 11 .withErrorCode, stub 12 .withErrorCode, stub 13 .withErrorCode,
    stub 14 .withErrorCode, stub 15 .noErrorCode, stub 16 .noErrorCode,
    stub 17 .noErrorCode, stub 18 .noErrorCode, stub 19 .noErrorCode ]

/-- `hwintr0` to `hwintr15` -/
def hwintr : List (List (Instr Label)) :=
  [ stub 32 .noErrorCode, stub 33 .noErrorCode, stub 34 .noErrorCode, stub 35 .noErrorCode,
    stub 36 .noErrorCode, stub 37 .noErrorCode, stub 38 .noErrorCode, stub 39 .noErrorCode,
    stub 40 .noErrorCode, stub 41 .noErrorCode, stub 42 .noErrorCode, stub 43 .noErrorCode,
    stub 44 .noErrorCode, stub 45 .noErrorCode, stub 46 .noErrorCode,
    stub 47 .noErrorCode ]

def intrMsg : List (Instr Label) :=
  [ .push .edx, .push .edi, .push .esi, .push .ebp, .pushSeg .ds, .pushSeg .es, .pushSeg .fs,
    .movImm 0x10 .edx, .movSeg .edx .ds, .movSeg .edx .es, .movSeg .edx .fs,
    .push .ecx, .movEsp .ecx,
    .push .ebx, .movEsp .ebx,
    .push .ecx, .push .ebx, .push .eax,
    .call .doIntrMsg,
    .addEsp 12, .pop .ebx, .pop .ecx, .popSeg .fs, .popSeg .es, .popSeg .ds,
    .pop .ebp, .pop .esi, .pop .edi, .pop .edx, .iret ]

def intrKercall : List (Instr Label) := stub 0x88 .noErrorCode

def intrReserved : List (Instr Label) := stub 255 .noErrorCode

def noErrorCode : List (Instr Label) :=
  [ .xchg .eax 0, -- eax = the number of the vector
    .push .ebx, .push .ecx, .push .edx, .push .edi, .push .esi, .push .ebp,
    .pushSeg .ds, .pushSeg .es, .pushSeg .fs,
    .load 44 .edx, -- edx = cs
    .andImm 3 .edx, .push .edx,
    .pushImm 0,
    .lea 48 .edx, -- edx = &eip
    .push .edx,
    .movImm 0x10 .edx, .movSeg .edx .ds, .movSeg .edx .es, .movSeg .edx .fs,
    .callTable .eax,
    .addEsp 12, .popSeg .fs, .popSeg .es, .popSeg .ds,
    .pop .ebp, .pop .esi, .pop .edi, .pop .edx, .pop .ecx, .pop .ebx, .pop .eax, .iret ]

def withErrorCode : List (Instr Label) :=
  [ .xchg .eax 4, -- eax = the error code
    .xchg .ebx 0, -- ebx = the number of the vector
    .push .ecx, .push .edx, .push .edi, .push .esi, .push .ebp,
    .pushSeg .ds, .pushSeg .es, .pushSeg .fs,
    .load 44 .edx, .andImm 3 .edx, .push .edx,
    .push .eax,
    .lea 48 .eax, .push .eax,
    .movImm 0x10 .eax, .movSeg .eax .ds, .movSeg .eax .es, .movSeg .eax .fs,
    .callTable .ebx,
    .addEsp 12, .popSeg .fs, .popSeg .es, .popSeg .ds,
    .pop .ebp, .pop .esi, .pop .edi, .pop .edx, .pop .ecx, .pop .ebx, .pop .eax, .iret ]

/-- `asm.s`. The functions in C that it calls have no code here. -/
def code : Label → List (Instr Label)
  | .intr i => intr.getD i []
  | .hwintr i => hwintr.getD i []
  | .intrMsg => intrMsg
  | .intrKercall => intrKercall
  | .intrReserved => intrReserved
  | .noErrorCode => noErrorCode
  | .withErrorCode => withErrorCode
  | .doIntrMsg => []

/-! ## Up to the call -/

/-- What follows a call through the table, in both blocks. -/
def restore : List (Instr Label) :=
  [ .addEsp 12, .popSeg .fs, .popSeg .es, .popSeg .ds,
    .pop .ebp, .pop .esi, .pop .edi, .pop .edx, .pop .ecx, .pop .ebx, .pop .eax, .iret ]

/-- The dwords both blocks leave between the arguments and the saved `eip`, top first. -/
def saved (reg : Reg → Dword) (seg : Seg → Selector) : List Cell :=
  [ .sel (seg .fs), .sel (seg .es), .sel (seg .ds), .word (reg .ebp), .word (reg .esi),
    .word (reg .edi), .word (reg .edx), .word (reg .ecx), .word (reg .ebx), .word (reg .eax) ]

/-- At the call `n` selects the handler, the arguments are `a`, `err` and `pl`, and the registers
that the stub found are saved up to `a`. -/
structure AtCall (reg : Reg → Dword) (seg : Seg → Selector) (n a err pl : Dword) (r : Reg)
    (m₁ : Machine) : Prop where
  number : m₁.reg r = n
  esp : m₁.esp + 52 = a
  eip : m₁.top 0 = a
  error : m₁.top 1 = err
  level : m₁.top 2 = pl
  saved : Holds m₁.mem (m₁.esp + 12) (saved reg seg)

variable {reg : Reg → Dword} {seg : Seg → Selector} {m₁ m₂ : Machine}

theorem sym_no_error_code (reg : Reg → Dword) (seg : Seg → Selector) (n a cs : Dword) :
    ∃ s, symRun code 22 (stub n .noErrorCode, ⟨reg, a, seg, [.any, .word cs]⟩) =
        some (.callTable .eax :: restore, s) ∧
      s.reg .eax = n ∧ s.esp = lower 13 a ∧
      s.stack = .word (lower 12 a + 48) :: .word 0 :: .word (cs &&& 3) ::
        (saved reg seg ++ [.any, .word cs]) :=
  ⟨_, rfl, rfl, rfl, rfl⟩

theorem sym_with_error_code (reg : Reg → Dword) (seg : Seg → Selector) (n a err cs : Dword) :
    ∃ s, symRun code 22 (stub n .withErrorCode, ⟨reg, a, seg, [.word err, .any, .word cs]⟩) =
        some (.callTable .ebx :: restore, s) ∧
      s.reg .ebx = n ∧ s.esp = lower 12 a ∧
      s.stack = .word (lower 11 a + 48) :: .word err :: .word (cs &&& 3) ::
        (saved reg seg ++ [.any, .word cs]) :=
  ⟨_, rfl, rfl, rfl, rfl⟩

/-- The call, from what the list says. -/
theorem atCall_of_models {s : Sym} {n a err pl : Dword} {r : Reg} {l : List Cell}
    (hm : Models m₁ s) (hn : s.reg r = n) (ha : s.esp + 52 = a)
    (hs : s.stack = .word a :: .word err :: .word pl :: (saved reg seg ++ l)) :
    AtCall reg seg n a err pl r m₁ := by
  have hh := hm.holds
  rw [hs, ← hm.esp] at hh
  constructor
  · rw [hm.reg, hn]
  · rw [hm.esp, ha]
  · exact hh 0 _ rfl
  · exact hh 1 _ rfl
  · exact hh 2 _ rfl
  · intro k c hk
    -- the saved registers are above the three arguments
    obtain ⟨hlt, -⟩ := List.getElem?_eq_some_iff.mp hk
    have hd := (hh.drop (d := 12) rfl) k c
    apply hd
    show (saved reg seg ++ l)[k]? = some c
    rw [List.getElem?_append_left hlt, hk]

/-- `no_error_code` takes the address that the stub found in `esp` for the address of the saved
`eip`. -/
theorem no_error_code_call (pad : Dword → BitVec 16) (n : Dword) (m : Machine) :
    ∃ m₁, Reaches (step code pad) (stub n .noErrorCode, m) (.callTable .eax :: restore, m₁) ∧
      AtCall m.reg m.seg n m.esp 0 (m.mem (m.esp + 4) &&& 3) .eax m₁ := by
  obtain ⟨s, hs, hn, ha, hl⟩ :=
    sym_no_error_code m.reg m.seg n m.esp (m.mem (m.esp + 4))
  have hm : Models m ⟨m.reg, m.esp, m.seg, [.any, .word (m.mem (m.esp + 4))]⟩ :=
    ⟨rfl, rfl, rfl, by simp [DEPTH], .cons trivial (.cons rfl .nil)⟩
  obtain ⟨m₁, hr, hm₁⟩ := reaches_of_symRun pad hm hs
  -- the number, nine registers and three arguments are 52 bytes; `lea` comes one push earlier
  have h13 : lower 13 m.esp + 52 = m.esp := (lower_add 13 m.esp 0).trans (add_zero _)
  have h12 : lower 12 m.esp + 48 = m.esp := (lower_add 12 m.esp 0).trans (add_zero _)
  rw [h12] at hl
  exact ⟨m₁, hr, atCall_of_models hm₁ hn (by rw [ha, h13]) hl⟩

/-- `with_error_code` takes the dword that the stub found on top for the error code. -/
theorem with_error_code_call (pad : Dword → BitVec 16) (n : Dword) (m : Machine) :
    ∃ m₁, Reaches (step code pad) (stub n .withErrorCode, m) (.callTable .ebx :: restore, m₁) ∧
      AtCall m.reg m.seg n (m.esp + 4) (m.mem m.esp) (m.mem (m.esp + 8) &&& 3) .ebx m₁ := by
  obtain ⟨s, hs, hn, ha, hl⟩ :=
    sym_with_error_code m.reg m.seg n m.esp (m.mem m.esp) (m.mem (m.esp + 8))
  have hcs : Holds m.mem (m.esp + 4 + 4) [.word (m.mem (m.esp + 8))] := by
    rw [add_assoc]
    exact .cons rfl .nil
  have hm : Models m
      ⟨m.reg, m.esp, m.seg, [.word (m.mem m.esp), .any, .word (m.mem (m.esp + 8))]⟩ :=
    ⟨rfl, rfl, rfl, by simp [DEPTH], .cons rfl (.cons trivial hcs)⟩
  obtain ⟨m₁, hr, hm₁⟩ := reaches_of_symRun pad hm hs
  have h12 : lower 12 m.esp + 52 = m.esp + 4 := lower_add 12 m.esp 4
  have h11 : lower 11 m.esp + 48 = m.esp + 4 := lower_add 11 m.esp 4
  rw [h11] at hl
  exact ⟨m₁, hr, atCall_of_models hm₁ hn (by rw [ha, h12]) hl⟩

/-! ## From the return on -/

/-- The function that is called at `m₁` returns at `m₂`, respecting the C convention: `esp`, `ebx`,
`esi`, `edi` and `ebp` are as they were, and so is what the entry code has saved above the
arguments. The arguments are the function's own. -/
structure Returns (m₁ m₂ : Machine) : Prop where
  esp : m₂.esp = m₁.esp
  callee : ∀ r ∈ [Reg.ebx, .esi, .edi, .ebp], m₂.reg r = m₁.reg r
  frame : ∀ k, 3 ≤ k → k < 13 → m₂.top k = m₁.top k

theorem sym_restore (reg reg₂ : Reg → Dword) (seg seg₂ : Seg → Selector) (a : Dword) :
    ∃ s, symRun code 11 (restore, ⟨reg₂, a, seg₂, .any :: .any :: .any :: saved reg seg⟩) =
        some ([.iret], s) ∧
      s.reg = reg ∧ s.seg = seg ∧ s.esp = a + 12 + 4 + 4 + 4 + 4 + 4 + 4 + 4 + 4 + 4 + 4 := by
  refine ⟨_, rfl, ?_, ?_, rfl⟩
  · funext r
    cases r <;> rfl
  · funext x
    cases x <;> rfl

/-- **The way back.** From the return of the handler control reaches `iret` with the registers that
were saved, and the stack pointer above them. -/
theorem restore_returns (pad : Dword → BitVec 16) {n a err pl : Dword} {r : Reg}
    (h : AtCall reg seg n a err pl r m₁)
    (hret : Returns m₁ m₂) :
    ∃ m₃, Reaches (step code pad) (restore, m₂) ([.iret], m₃) ∧
      m₃.reg = reg ∧ m₃.seg = seg ∧ m₃.esp = a := by
  obtain ⟨s, hs, hreg, hseg, hesp⟩ := sym_restore reg m₂.reg seg m₂.seg m₂.esp
  have hsaved : Holds m₂.mem (m₂.esp + 12) (saved reg seg) := by
    -- the handler has left the ten dwords alone
    intro k c hk
    obtain ⟨hlt, -⟩ := List.getElem?_eq_some_iff.mp hk
    have hf := hret.frame (3 + k) (by omega) (by simp [saved] at hlt; omega)
    have hc := h.saved k c hk
    rw [slot_add (d := 12) _ rfl] at hc ⊢
    show c.Is (m₂.top (3 + k))
    rw [hf]
    exact hc
  have hm : Models m₂ ⟨m₂.reg, m₂.esp, m₂.seg, .any :: .any :: .any :: saved reg seg⟩ := by
    refine ⟨rfl, rfl, rfl, by simp [DEPTH, saved], ?_⟩
    refine .cons trivial (.cons trivial (.cons trivial ?_))
    rwa [show m₂.esp + 4 + 4 + 4 = m₂.esp + 12 by ring]
  obtain ⟨m₃, hr, hm₃⟩ := reaches_of_symRun pad hm hs
  refine ⟨m₃, hr, by rw [hm₃.reg, hreg], by rw [hm₃.seg, hseg], ?_⟩
  calc m₃.esp = m₂.esp + 12 + 4 + 4 + 4 + 4 + 4 + 4 + 4 + 4 + 4 + 4 := by rw [hm₃.esp, hesp]
    _ = m₁.esp + 52 := by rw [hret.esp]; ring
    _ = a := h.esp

end Mks.Interrupt
