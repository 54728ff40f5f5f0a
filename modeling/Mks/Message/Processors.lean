import Mks.Process.Tasks
import Mks.Message.Slices

set_option autoImplicit false

/-! # One processor for each process

The kernel together with the task registers of the processor. A beat of the machine is an instruction
of the current process, which changes registers, or an operation of the kernel; when the operation
makes another process current, `switch_to` jumps to its task. The processor never refuses a jump, and
whatever the processes do and however they are scheduled, each of them computes as if the processor
were its own (`own_processors`): its registers are changed by its own instructions only. The local
descriptor table in use is always that of the current process (`segments_of_current`).
-/

namespace Mks

open TaskSwitch Process

structure Machine where
  kernel : Kernel
  cpu : Cpu

namespace Machine

variable {L : Layout} {image : Image} {m m' : Machine}

inductive Beat
  /-- An instruction, of the process or of the kernel on its behalf. -/
  | instr (f : Regs → Regs)
  | op (e : Kernel.Op × Int)

/-- One beat of the machine. -/
def Step (L : Layout) (m : Machine) (b : Beat) (m' : Machine) : Prop :=
  match b with
  | .instr f => m' = { m with cpu := { m.cpu with regs := f m.cpu.regs } }
  | .op e => Kernel.Step L m.kernel e m'.kernel ∧
      switchTo m.cpu m.kernel.sched.procCurrent m'.kernel.sched.procCurrent = some m'.cpu

/-- The instructions that were executed while process `j` was current. -/
def instrs (j : Int) (tr : List (Machine × Beat × Machine)) : List (Regs → Regs) :=
  tr.filterMap fun t =>
    match t.2.1 with
    | .instr f => if t.1.kernel.sched.procCurrent = j then some f else none
    | .op _ => none

/-- The kernel's state is possible for the initial processes, and the task of the current one is the
current task. -/
structure Good (L : Layout) (image : Image) (m : Machine) (i : Fin NR_INIT_PROCS) : Prop where
  ok : m.kernel.Ok L
  table : m.kernel.sched.typeOf = Sched.procInit.typeOf
  current : m.kernel.sched.procCurrent = (i : Nat)
  wired : Wired (tasks image) m.cpu i

/-- There are no other processes than the initial ones. -/
theorem current_lt {k : Kernel} (h : k.Ok L) (ht : k.sched.typeOf = Sched.procInit.typeOf) :
    ∃ i : Fin NR_INIT_PROCS, k.sched.procCurrent = (i : Nat) := by
  obtain ⟨pr, hp⟩ := h.queues.sched.current
  have htype : Sched.procInit.typeOf k.sched.procCurrent = some pr.procType := by
    rw [← ht, Sched.typeOf, hp, Option.map_some]
  obtain ⟨pr', hp', -⟩ := Option.map_eq_some_iff.mp htype
  have hi : 0 ≤ k.sched.procCurrent ∧ k.sched.procCurrent < NR_INIT_PROCS := by
    by_contra hi
    simp only [Sched.procInit, Sched.initProcs, if_neg hi] at hp'
    cases hp'
  exact ⟨⟨k.sched.procCurrent.toNat, by omega⟩, by simp [hi.1]⟩

/-- **A switch** is not refused, and changes the registers of no process. -/
theorem Good.switch {i : Fin NR_INIT_PROCS} (h : Good L image m i) {e : Kernel.Op × Int} {k : Kernel}
    (hs : Kernel.Step L m.kernel e k) :
    ∃ c j, switchTo m.cpu m.kernel.sched.procCurrent k.sched.procCurrent = some c ∧
      Good L image ⟨k, c⟩ j ∧ context (tasks image) c j = context (tasks image) m.cpu i := by
  have hok := (Kernel.step_cases h.ok hs).1
  have htable := (Kernel.step_typeOf h.ok hs).trans h.table
  obtain ⟨j, hj⟩ := current_lt hok htable
  unfold switchTo
  rw [h.current, hj]
  by_cases hij : j = i
  · subst hij
    exact ⟨m.cpu, j, if_pos rfl, ⟨hok, htable, hj, h.wired⟩, rfl⟩
  · have hne : ((j : Nat) : Int) ≠ (i : Nat) := fun e => hij (Fin.ext (by exact_mod_cast e))
    obtain ⟨c, hc, hw, hctx⟩ := h.wired.jump hij
    exact ⟨c, j, by rw [if_neg hne, Int.toNat_natCast]; exact hc, ⟨hok, htable, hj, hw⟩, hctx⟩

/-- One beat changes the registers of the current process, and of no other. -/
theorem step_context {i : Fin NR_INIT_PROCS} (h : Good L image m i) {b : Beat}
    (hs : Step L m b m') :
    ∃ j, Good L image m' j ∧ ∀ l, context (tasks image) m'.cpu j l =
      (instrs (l : Nat) [(m, b, m')]).foldl (fun r f => f r) (context (tasks image) m.cpu i l) := by
  cases b with
  | instr f =>
      obtain rfl := hs
      obtain ⟨hw, hctx⟩ := h.wired.instr (f m.cpu.regs)
      refine ⟨i, ⟨h.ok, h.table, h.current, hw⟩, fun l => ?_⟩
      rw [hctx]
      by_cases hl : l = i
      · subst hl
        simp [instrs, h.current, context]
      · have hne : ¬ ((i : Nat) : Int) = (l : Nat) := fun e => hl (Fin.ext (by exact_mod_cast e.symm))
        simp [instrs, h.current, hne, hl]
  | op e =>
      obtain ⟨hs, hsw⟩ := hs
      obtain ⟨c, j, hc, hgood, hctx⟩ := h.switch hs
      obtain rfl := Option.some.inj (hsw.symm.trans hc)
      exact ⟨j, hgood, fun l => congrFun hctx l⟩

/-- The registers of every process after a run. -/
theorem run_context {i : Fin NR_INIT_PROCS} {tr : List (Machine × Beat × Machine)}
    (h : Good L image m i) (hr : Run (Step L) m tr m') :
    ∃ j, Good L image m' j ∧ ∀ l, context (tasks image) m'.cpu j l =
      (instrs (l : Nat) tr).foldl (fun r f => f r) (context (tasks image) m.cpu i l) := by
  induction hr with
  | nil => exact ⟨i, h, fun l => rfl⟩
  | @snoc tr m₁ m₂ b hr hs ih =>
      obtain ⟨j₁, hgood₁, hctx₁⟩ := ih
      obtain ⟨j, hgood, hctx⟩ := step_context hgood₁ hs
      refine ⟨j, hgood, fun l => ?_⟩
      rw [hctx, hctx₁, instrs, instrs, instrs, List.filterMap_append, List.foldl_append]

/-- The machine when `main` starts user mode. -/
theorem boot_good (mem : Mem) {c c₀ : Cpu} (hc : c.cr3 = PAGE_DIR_ADDR)
    (ht : c.tss (image.tssPtr 0) = initTss) (h₀ : procInitTasks image c = some c₀) :
    Good L image ⟨Kernel.start mem, c₀⟩ ⟨0, by decide⟩ ∧
      ∀ i : Fin NR_INIT_PROCS, context (tasks image) c₀ ⟨0, by decide⟩ i =
        if (i : Nat) = 0 then c₀.regs else startRegs image i := by
  obtain ⟨c', hc', hw, hctx⟩ := procInitTasks_wired image hc ht
  obtain rfl := Option.some.inj (h₀.symm.trans hc')
  refine ⟨⟨(Kernel.start_start mem).ok, rfl, rfl, hw⟩, fun i => ?_⟩
  split_ifs with hi
  · exact if_pos (Fin.ext hi)
  · exact hctx i hi

/-- **One processor for each process.** In every state of every run the task and the local
descriptor table in use are those of the current process, it is the only one whose task is busy, no
operation of the kernel is refused its task switch, and the registers are those with which the
current process started, changed by its own instructions only. -/
theorem own_processors {mem : Mem} {c c₀ : Cpu} {tr : List (Machine × Beat × Machine)}
    (hc : c.cr3 = PAGE_DIR_ADDR) (ht : c.tss (image.tssPtr 0) = initTss)
    (h₀ : procInitTasks image c = some c₀)
    (hr : Run (Step L) ⟨Kernel.start mem, c₀⟩ tr m) :
    ∃ i < NR_INIT_PROCS, m.kernel.sched.procCurrent = (i : Nat) ∧
      m.cpu.tr = TSS i ∧ m.cpu.ldtr = LDT i ∧ m.cpu.cr3 = PAGE_DIR_ADDR ∧
      (∀ j < NR_INIT_PROCS, AvailableTss (m.cpu.descriptor (TSS j)) ↔ j ≠ i) ∧
      (∀ e k, Kernel.Step L m.kernel e k →
        (switchTo m.cpu (i : Nat) k.sched.procCurrent).isSome) ∧
      m.cpu.regs = (instrs (i : Nat) tr).foldl (fun r f => f r)
        (if i = 0 then c₀.regs else startRegs image i) := by
  obtain ⟨hgood₀, hctx₀⟩ := boot_good (L := L) mem hc ht h₀
  obtain ⟨i, hgood, hctx⟩ := run_context hgood₀ hr
  refine ⟨i, i.isLt, hgood.current, hgood.wired.tr, hgood.wired.ldtr, hgood.wired.cr3_eq,
    fun j hj => ?_, fun e k hs => ?_, ?_⟩
  · refine (hgood.wired.available_iff ⟨j, hj⟩).trans (not_congr ?_)
    exact ⟨fun h => congrArg Fin.val h, fun h => Fin.ext h⟩
  · obtain ⟨c', -, hc', -⟩ := hgood.switch hs
    rw [← hgood.current, hc']
    rfl
  · have hi := hctx i
    rw [hctx₀ i, context, if_pos rfl] at hi
    exact hi

/-- A run for the witnesses: a clock interrupt starts the system process, which loads `eax`. -/
theorem clock_run (image : Image) {c c₀ : Cpu} (hc : c.cr3 = PAGE_DIR_ADDR)
    (ht : c.tss (image.tssPtr 0) = initTss) (h₀ : procInitTasks image c = some c₀) :
    ∃ m k, Run (Step (stackLayout 0x18000)) ⟨Kernel.start Kernel.blank, c₀⟩
      [(⟨Kernel.start Kernel.blank, c₀⟩, .op (.clock 3, 0), m),
        (m, .instr fun r => { r with eax := 5 }, ⟨m.kernel, k⟩)] ⟨m.kernel, k⟩ ∧
      m.kernel.sched.procCurrent = 2 := by
  have hex : ((Kernel.start Kernel.blank).exec 0 (stackLayout 0x18000) (.clock 3)).map
      (fun r => (r.1, r.2.sched.procCurrent)) = some (0, 2) := by decide +kernel
  obtain ⟨⟨r, k⟩, hk, he⟩ := Option.map_eq_some_iff.mp hex
  obtain ⟨hr, hcur⟩ := Prod.mk.inj he
  simp only [] at hr hcur
  subst hr
  obtain ⟨hgood₀, -⟩ := boot_good (L := stackLayout 0x18000) Kernel.blank hc ht h₀
  have hs : Kernel.Step (stackLayout 0x18000) (Kernel.start Kernel.blank) (.clock 3, 0) k :=
    ⟨0, hk⟩
  obtain ⟨c₁, -, hc₁, -⟩ := hgood₀.switch hs
  have h₁ : Step (stackLayout 0x18000) ⟨Kernel.start Kernel.blank, c₀⟩ (.op (.clock 3, 0))
      ⟨k, c₁⟩ := ⟨hs, hc₁⟩
  have h₂ : Step (stackLayout 0x18000) ⟨k, c₁⟩ (.instr fun r => { r with eax := 5 })
      ⟨k, { c₁ with regs := { c₁.regs with eax := 5 } }⟩ := rfl
  exact ⟨⟨k, c₁⟩, _, (Run.nil.snoc h₁).snoc h₂, hcur⟩

/-- The addresses of the witnesses. -/
def exampleImage : Image := ⟨0x18000, 0x10100, 0x10200, 0x10300⟩

/-- A processor before `proc_init`. -/
def exampleCpu : Cpu where
  gdt _ := (0, 0)
  tss _ := initTss
  tr := 0
  ldtr := 0
  cr3 := PAGE_DIR_ADDR
  regs := initTss.toRegs

theorem own_processors_clock : ∃ c₀ tr m, procInitTasks exampleImage exampleCpu = some c₀ ∧
    Run (Step (stackLayout 0x18000)) ⟨Kernel.start Kernel.blank, c₀⟩ tr m ∧
    m.cpu.tr = TSS 2 ∧ m.cpu.regs = { startRegs exampleImage 2 with eax := 5 } := by
  obtain ⟨c₀, h₀, -⟩ := procInitTasks_wired exampleImage (c := exampleCpu) rfl rfl
  obtain ⟨m, k, hr, hcur⟩ := clock_run exampleImage (c := exampleCpu) rfl rfl h₀
  obtain ⟨i, -, hi, htr, -, -, -, -, hregs⟩ :=
    own_processors (c := exampleCpu) rfl rfl h₀ hr
  obtain rfl : i = 2 := by
    rw [hcur] at hi
    exact_mod_cast hi.symm
  refine ⟨c₀, _, _, h₀, hr, htr, hregs.trans ?_⟩
  simp [instrs, hcur]

/-- **The segments in use.** With the local descriptor tables that `proc_init` fills, the code and
the data segment of user mode are always those of the current process: 64MB from its slot on, and
one page more. -/
theorem segments_of_current {mem : Mem} {c c₀ : Cpu} {tr : List (Machine × Beat × Machine)}
    {ldtAt : Word → Fin 3 → DescStruct} {ldt : Ldts} {e : Fin 3}
    (hc : c.cr3 = PAGE_DIR_ADDR) (ht : c.tss (image.tssPtr 0) = initTss)
    (h₀ : procInitTasks image c = some c₀)
    (hl : ∀ i < NR_INIT_PROCS, ldtAt (image.ldtPtr i) = procInit ldt i)
    (hr : Run (Step L) ⟨Kernel.start mem, c₀⟩ tr m) (he : e = 1 ∨ e = 2) (a : Word) :
    a ∈ (ldtAt (m.cpu.descriptor m.cpu.ldtr).base e).decode.linear ↔
      0x4000000 * m.kernel.sched.procCurrent ≤ a.toNat ∧
        (a.toNat : Int) < 0x4000000 * (m.kernel.sched.procCurrent + 1) + 4096 := by
  obtain ⟨hgood₀, -⟩ := boot_good (L := L) mem hc ht h₀
  obtain ⟨i, hgood, -⟩ := run_context hgood₀ hr
  have hbase : (m.cpu.descriptor m.cpu.ldtr).base = image.ldtPtr i := by
    unfold Cpu.descriptor
    rw [hgood.wired.ldtr, hgood.wired.gdt_ldt]
    simp only [tasks, setLdtDesc, decode_setTssldtDesc]
  rw [hbase, hl i i.isLt, hgood.current]
  refine (procInit_mem ldt i.isLt he a).trans ?_
  omega

/-- The local descriptor tables at their addresses. -/
def exampleLdts (p : Word) : Fin 3 → DescStruct :=
  procInit (fun _ _ => ⟨0, 0⟩) ((p - 116 - 0x18000) / 4096).toNat

theorem segments_of_current_clock : ∃ c₀ tr m, procInitTasks exampleImage exampleCpu = some c₀ ∧
    Run (Step (stackLayout 0x18000)) ⟨Kernel.start Kernel.blank, c₀⟩ tr m ∧
    m.kernel.sched.procCurrent = 2 ∧
    ((0x8000000 : Word) ∈ (exampleLdts (m.cpu.descriptor m.cpu.ldtr).base 1).decode.linear ↔
      0x4000000 * (2 : Int) ≤ 0x8000000 ∧ (0x8000000 : Int) < 0x4000000 * (2 + 1) + 4096) := by
  obtain ⟨c₀, h₀, -⟩ := procInitTasks_wired exampleImage (c := exampleCpu) rfl rfl
  obtain ⟨m, k, hr, hcur⟩ := clock_run exampleImage (c := exampleCpu) rfl rfl h₀
  have hl : ∀ i < NR_INIT_PROCS,
      exampleLdts (exampleImage.ldtPtr i) = procInit (fun _ _ => ⟨0, 0⟩) i := by
    intro i hi
    have : i < 3 := hi
    interval_cases i <;> rfl
  have h := segments_of_current (c := exampleCpu) rfl rfl h₀ hl hr (e := 1) (.inl rfl) 0x8000000
  rw [hcur] at h
  exact ⟨c₀, _, _, h₀, hr, hcur, h⟩

end Machine

end Mks
