import Mks.Interrupt.Transparent
import Mks.Message.System
import Mks.Process.Tasks

set_option autoImplicit false

/-! # The message gate (`intr_msg` in `kernel/asm.s`)

`int $0x80` comes to `intr_msg`, which saves the registers of the process and calls `do_intr_msg`
with `eax` and with the addresses at which `ebx` and `ecx` are saved. They are those of the layout
that the message functions are about. What is at these addresses when the call returns, which may
be after other processes have run, is in the registers when the process goes on (`message_gate`).
-/

namespace Mks.Interrupt

open X86 StateTransition

/-! ## The stack at the gate -/

/-- The place `n` bytes below the top of the kernel stack that `proc_init` gives process `i`. -/
theorem below_esp0 (im : Process.Image) (t : TaskSwitch.Tss) (i n : Nat) :
    BitVec.ofInt 32 (im.initProcs.toNat + 4096 * ((i : Int) + 1) - n)
      = (Process.taskTss im t i).esp0 - BitVec.ofNat 32 n := by
  have h : BitVec.ofInt 32 (im.initProcs.toNat + 4096 * ((i : Int) + 1))
      = (Process.taskTss im t i).esp0 := by
    rw [show (im.initProcs.toNat + 4096 * ((i : Int) + 1)) = (im.initProcs.toNat + 4096 * i + 4096 : Nat)
      by push_cast; ring, BitVec.ofInt_natCast, BitVec.ofNat_add, BitVec.ofNat_add, BitVec.ofNat_mul,
      BitVec.ofNat_toNat, BitVec.setWidth_eq]
    show _ = Process.PAGE_SIZE + (im.initProcs + 4096 * BitVec.ofNat 32 i)
    exact add_comm _ _
  rw [← h, eq_sub_iff_add_eq, ← BitVec.ofInt_natCast, ← BitVec.ofInt_add, sub_add_cancel]

/-- What the processor pushes when the interrupted code is not at level 0. -/
def userFrame (f : Frame) (m : Machine) : List Cell :=
  [.word f.eip, .word f.cs, .word f.eflags, .word m.esp, .word f.ss]

theorem pushFrame_user {f : Frame} (hcs : f.cs &&& 3 ≠ 0) (m : Machine) :
    (pushFrame f m).esp = lower 5 f.esp0 ∧
      Holds (pushFrame f m).mem (pushFrame f m).esp (userFrame f m) := by
  rw [pushFrame, if_neg hcs]
  refine ⟨rfl, ?_⟩
  have hd : ∀ n < 5, n < DEPTH := by simp only [DEPTH]; omega
  refine holds_push (holds_push (holds_push (holds_push (holds_push .nil ?_ rfl) ?_ rfl) ?_ rfl)
    ?_ rfl) ?_ rfl
  all_goals exact hd _ (by simp)

/-- The registers that `intr_msg` saves above `ebx` and `ecx`, top first. -/
def savedMsg (reg : Reg → Dword) (seg : Seg → Selector) : List Cell :=
  [ .sel (seg .fs), .sel (seg .es), .sel (seg .ds), .word (reg .ebp), .word (reg .esi),
    .word (reg .edi), .word (reg .edx) ]

/-- What follows the call. -/
def restoreMsg : List (Instr Label) :=
  [ .addEsp 12, .pop .ebx, .pop .ecx, .popSeg .fs, .popSeg .es, .popSeg .ds,
    .pop .ebp, .pop .esi, .pop .edi, .pop .edx, .iret ]

theorem sym_intr_msg (reg : Reg → Dword) (seg : Seg → Selector) (a x₀ x₁ x₂ x₃ x₄ : Dword) :
    ∃ s, symRun code 18
        (intrMsg, ⟨reg, a, seg, [.word x₀, .word x₁, .word x₂, .word x₃, .word x₄]⟩) =
        some (.call .doIntrMsg :: restoreMsg, s) ∧
      s.esp = lower 12 a ∧
      s.stack = .word (reg .eax) :: .word (lower 9 a) :: .word (lower 8 a) :: .word (reg .ebx) ::
        .word (reg .ecx) ::
        (savedMsg reg seg ++ [.word x₀, .word x₁, .word x₂, .word x₃, .word x₄]) :=
  ⟨_, rfl, rfl, rfl⟩

theorem sym_restoreMsg (reg reg₂ : Reg → Dword) (seg seg₂ : Seg → Selector)
    (a b c x₀ x₁ x₂ x₃ x₄ : Dword) :
    ∃ s, symRun code 10 (restoreMsg, ⟨reg₂, a, seg₂, .any :: .any :: .any :: .word b :: .word c ::
        (savedMsg reg seg ++ [.word x₀, .word x₁, .word x₂, .word x₃, .word x₄])⟩) =
        some ([.iret], s) ∧
      s.reg .eax = reg₂ .eax ∧ s.reg .ebx = b ∧ s.reg .ecx = c ∧
      (∀ r ∈ [Reg.edx, .esi, .edi, .ebp], s.reg r = reg r) ∧ s.seg = seg ∧
      s.stack = [.word x₀, .word x₁, .word x₂, .word x₃, .word x₄] := by
  refine ⟨_, rfl, rfl, rfl, rfl, ?_, ?_, rfl⟩
  · simp only [List.forall_mem_cons]
    exact ⟨rfl, rfl, rfl, rfl, by simp⟩
  · funext x
    cases x <;> rfl

/-! ## The call -/

/-- `do_intr_msg` is called at `m₁` and returns at `m₂`. The arguments are its own, and it writes
what the two pointers point to, dwords 3 and 4 of the stack; so may the calls of other processes
before it returns. The rest of the stack is as it was. -/
structure Answers (m₁ m₂ : Machine) : Prop where
  esp : m₂.esp = m₁.esp
  frame : ∀ k, 5 ≤ k → k < 17 → m₂.top k = m₁.top k

/-- The process goes on: its result is in `eax`, and `ebx` and `ecx` are what has been left where
they were saved. All else is as it was. -/
structure Resumes (m : Machine) (f : Frame) (eax ebx ecx : Dword) (m₃ : Machine) : Prop where
  eax : m₃.reg .eax = eax
  ebx : m₃.reg .ebx = ebx
  ecx : m₃.reg .ecx = ecx
  others : ∀ r ∈ [Reg.edx, .esi, .edi, .ebp], m₃.reg r = m.reg r
  seg : m₃.seg = m.seg
  frame : Holds m₃.mem m₃.esp (userFrame f m)

variable {m m₁ m₂ : Machine} {f : Frame}

/-- The stack at the call. -/
def msgStack (m : Machine) (f : Frame) (b c : Dword) : List Cell :=
  .word b :: .word c :: (savedMsg m.reg m.seg ++ userFrame f m)

theorem restoreMsg_resumes (pad : Dword → BitVec 16) {l : List Cell}
    (h : Holds m₁.mem m₁.esp (l ++ msgStack m f (m.reg .ebx) (m.reg .ecx))) (hl : l.length = 3)
    (ha : Answers m₁ m₂) :
    ∃ m₃, Reaches (step code pad) (restoreMsg, m₂) ([.iret], m₃) ∧
      Resumes m f (m₂.reg .eax) (m₂.top 3) (m₂.top 4) m₃ := by
  have hh : Holds m₂.mem m₂.esp ([.any, .any, .any] ++ msgStack m f (m₂.top 3) (m₂.top 4)) := by
    intro k c hk
    rcases Nat.lt_or_ge k 5 with hlt | hge
    · interval_cases k <;> obtain rfl := Option.some.inj hk <;> trivial
    · obtain ⟨hk17, -⟩ := List.getElem?_eq_some_iff.mp hk
      simp only [msgStack, savedMsg, userFrame, List.length_append, List.length_cons,
        List.length_nil] at hk17
      -- above the two dwords nothing has changed
      have hc : (l ++ msgStack m f (m.reg .ebx) (m.reg .ecx))[k]? = some c := by
        rw [List.getElem?_append_right (by omega), hl]
        rw [List.getElem?_append_right (by simp; omega)] at hk
        obtain ⟨j, rfl⟩ := Nat.exists_eq_add_of_le hge
        rw [show 5 + j - 3 = j + 2 by omega]
        rw [show 5 + j - [Cell.any, .any, .any].length = j + 2 by simp; omega] at hk
        exact hk
      have := h k c hc
      rw [show m₁.mem (m₁.esp + BitVec.ofNat 32 (4 * k)) = m₁.top k from rfl,
        ← ha.frame k hge (by omega)] at this
      exact this
  obtain ⟨s, hs, heax, hebx, hecx, hothers, hseg, hstack⟩ := sym_restoreMsg m.reg m₂.reg m.seg
    m₂.seg m₂.esp (m₂.top 3) (m₂.top 4) f.eip f.cs f.eflags m.esp f.ss
  obtain ⟨m₃, hr, hm₃⟩ := reaches_of_symRun pad ⟨rfl, rfl, rfl, by simp [DEPTH, savedMsg], hh⟩ hs
  refine ⟨m₃, hr, ?_⟩
  constructor
  · rw [hm₃.reg, heax]
  · rw [hm₃.reg, hebx]
  · rw [hm₃.reg, hecx]
  · intro r hmem
    rw [hm₃.reg, hothers r hmem]
  · rw [hm₃.seg, hseg]
  · have := hm₃.holds
    rwa [hstack, ← hm₃.esp] at this

/-- **The message gate.** A process on the kernel stack that `proc_init` gives process `i` comes to
`do_intr_msg` with `eax` and the two addresses of the layout, which hold `ebx` and `ecx`. When the
call returns, the process goes on with its result and what the two addresses hold then. -/
theorem message_gate (pad : Dword → BitVec 16) (m : Machine) (f : Frame) (hcs : f.cs &&& 3 ≠ 0)
    (im : Process.Image) (t : TaskSwitch.Tss) (i : Nat)
    (hesp : f.esp0 = (Process.taskTss im t i).esp0) :
    ∃ g rest m₁, idt 0x80 = some g ∧ g.dpl = 3 ∧
      Reaches (step code pad) (code g.addr, deliver 0x80 f m) (.call .doIntrMsg :: rest, m₁) ∧
      m₁.top 0 = m.reg .eax ∧
      m₁.top 1 = BitVec.ofInt 32 ((stackLayout im.initProcs.toNat).ebx i) ∧
      m₁.top 2 = BitVec.ofInt 32 ((stackLayout im.initProcs.toNat).ecx i) ∧
      m₁.mem (m₁.top 1) = m.reg .ebx ∧ m₁.mem (m₁.top 2) = m.reg .ecx ∧
      ∀ m₂, Answers m₁ m₂ → ∃ m₃, Reaches (step code pad) (rest, m₂) ([.iret], m₃) ∧
        Resumes m f (m₂.reg .eax) (m₂.mem (m₁.top 1)) (m₂.mem (m₁.top 2)) m₃ := by
  obtain ⟨hsp, hframe⟩ := pushFrame_user hcs m
  obtain ⟨s, hs, ha, hl⟩ :=
    sym_intr_msg m.reg m.seg (pushFrame f m).esp f.eip f.cs f.eflags m.esp f.ss
  have hm : Models (pushFrame f m) ⟨m.reg, (pushFrame f m).esp, m.seg, userFrame f m⟩ :=
    ⟨pushFrame_reg f m, rfl, pushFrame_seg f m, by simp [DEPTH, userFrame], hframe⟩
  obtain ⟨m₁, hr, hm₁⟩ := reaches_of_symRun pad hm hs
  have hh := hm₁.holds
  rw [hl, ← hm₁.esp] at hh
  have h9 : lower 9 (pushFrame f m).esp = m₁.esp + 12 := by
    rw [hm₁.esp, ha]
    simp only [lower]
    ring
  have h8 : lower 8 (pushFrame f m).esp = m₁.esp + 16 := by
    rw [hm₁.esp, ha]
    simp only [lower]
    ring
  have hebx : m₁.top 1 = m₁.esp + 12 := (hh 1 _ rfl).trans h9
  have hecx : m₁.top 2 = m₁.esp + 16 := (hh 2 _ rfl).trans h8
  refine ⟨⟨15, 3, .intrMsg⟩, restoreMsg, m₁, rfl, rfl, hr, hh 0 _ rfl, ?_, ?_, ?_, ?_,
    fun m₂ ha => ?_⟩
  · rw [hebx, ← h9, hsp, hesp]
    refine Eq.trans ?_ (below_esp0 im t i 56).symm
    simp only [lower]
    ring_nf
    rfl
  · rw [hecx, ← h8, hsp, hesp]
    refine Eq.trans ?_ (below_esp0 im t i 52).symm
    simp only [lower]
    ring_nf
    rfl
  · rw [hebx]
    exact hh 3 _ rfl
  · rw [hecx]
    exact hh 4 _ rfl
  · obtain ⟨m₃, hr₃, hres⟩ := restoreMsg_resumes (m := m) (f := f) pad
      (l := [.word (m.reg .eax), .word (lower 9 (pushFrame f m).esp),
        .word (lower 8 (pushFrame f m).esp)]) hh rfl ha
    refine ⟨m₃, hr₃, ?_⟩
    rw [hebx, hecx, ← ha.esp]
    exact hres

/-- Process 2 sends a big message to process 1. -/
theorem message_gate_system : ∃ g rest m₁, idt 0x80 = some g ∧ g.dpl = 3 ∧
    Reaches (step code fun _ => 0)
      (code g.addr, deliver 0x80 ⟨0, 0x0F, 0x3202, 0x17, 0, 0x1B000⟩
        ⟨Function.update (Function.update (fun _ => 0) .eax 3) .ebx 1, 0x4000000, fun _ => 0x17,
          fun _ => 0⟩)
      (.call .doIntrMsg :: rest, m₁) ∧
    m₁.top 0 = 3 ∧ m₁.top 1 = BitVec.ofInt 32 ((stackLayout 0x18000).ebx 2) ∧
    m₁.mem (m₁.top 1) = 1 := by
  obtain ⟨g, rest, m₁, hg, hdpl, hr, h0, h1, -, hb, -⟩ := message_gate (fun _ => 0)
    ⟨Function.update (Function.update (fun _ => 0) .eax 3) .ebx 1, 0x4000000, fun _ => 0x17,
      fun _ => 0⟩
    ⟨0, 0x0F, 0x3202, 0x17, 0, 0x1B000⟩ (by decide) ⟨0x18000, 0, 0, 0⟩ Process.initTss 2 rfl
  exact ⟨g, rest, m₁, hg, hdpl, hr, h0, h1, hb⟩

end Mks.Interrupt
