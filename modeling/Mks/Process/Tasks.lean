import Mks.Process.Segment
import Mks.Lib.TaskSwitch

set_option autoImplicit false

/-! # The tasks of the processes

Every process is a task of the processor: `proc_init` (`kernel/proc.c`) fills the task-state segment
in its process structure and makes descriptors for it and for the local descriptor table in the GDT,
with the macros of `include/asm/system.h` and `include/kernel/proc.h`. `switch_to` is a jump to the
selector of the TSS. The process structures are the pages from `init_procs` on.
-/

namespace Mks.Process

open Descriptor TaskSwitch

def FIRST_TSS_ENTRY : Nat := 4
def FIRST_LDT_ENTRY : Nat := 5
def PAGE_SIZE : Word := 4096

/-- `TSS(n)`, the selector of the TSS of process `n`. -/
def TSS (n : Nat) : Word := (BitVec.ofNat 32 n <<< 4) + (BitVec.ofNat 32 FIRST_TSS_ENTRY <<< 3)

/-- `LDT(n)` -/
def LDT (n : Nat) : Word := (BitVec.ofNat 32 n <<< 4) + (BitVec.ofNat 32 FIRST_LDT_ENTRY <<< 3)

/-- `_set_tssldt_desc`: the words and bytes that the macro writes, put together to the two words of
the descriptor. -/
def setTssldtDesc (addr : Word) (type : BitVec 8) : Word × Word :=
  let ax := addr &&& 0xFFFF
  let eax := addr.rotateRight 16
  let al := eax &&& 0xFF
  let ah := (eax >>> 8) &&& 0xFF
  (104 ||| ax <<< 16, al ||| type.setWidth 32 <<< 8 ||| 0x00 <<< 16 ||| ah <<< 24)

def setTssDesc (addr : Word) : Word × Word := setTssldtDesc addr 0x89

def setLdtDesc (addr : Word) : Word × Word := setTssldtDesc addr 0x82

/-! ## `proc_init` -/

/-- The addresses that the linker gives: of the process structures and of the entries of the
initial processes. -/
structure Image where
  initProcs : Word
  idle : Word
  initProc : Word
  systemTask : Word

namespace Image

variable (m : Image)

/-- `proc[i]` -/
def procPtr (i : Nat) : Word := m.initProcs + 4096 * BitVec.ofNat 32 i

/-- `&(proc[i]->ldt)` -/
def ldtPtr (i : Nat) : Word := m.procPtr i + 116

/-- `&(proc[i]->tss)` -/
def tssPtr (i : Nat) : Word := m.procPtr i + 140

end Image

/-- The TSS of `INIT_PROC_DATA`. -/
def initTss : Tss where
  backLink := 0
  esp0 := 0
  ss0 := 0x10
  esp1 := 0
  ss1 := 0
  esp2 := 0
  ss2 := 0
  cr3 := PAGE_DIR_ADDR
  eip := 0
  eflags := 0
  eax := 0
  ecx := 0
  edx := 0
  ebx := 0
  esp := 0
  ebp := 0
  esi := 0
  edi := 0
  es := 0x17
  cs := 0x0F
  ss := 0x17
  ds := 0x17
  fs := 0x17
  gs := 0x17
  ldt := 0
  traceBitmap := 0x80000000

/-- What one turn of the loop over the initial processes does to the descriptors and to the
task-state segments. -/
def initTask (m : Image) (c : Cpu) (i : Nat) : Cpu :=
  let p := m.tssPtr i
  -- the copy of the whole of `*proc[0]` to `*proc[i]`
  let tss := Function.update c.tss p (c.tss (m.tssPtr 0))
  let tss := Function.update tss p { tss p with
    esp0 := PAGE_SIZE + m.procPtr i, ldt := LDT i, esp := 0x4000000, ebp := 0x4000000 }
  let gdt := Function.update c.gdt (FIRST_TSS_ENTRY + i * 2) (setTssDesc p)
  let gdt := Function.update gdt (FIRST_LDT_ENTRY + i * 2) (setLdtDesc (m.ldtPtr i))
  { c with tss := tss, gdt := gdt }

/-- The registers that `PROC_INIT` sets. -/
def setEntry (c : Cpu) (p eip eflags : Word) : Cpu :=
  { c with tss := Function.update c.tss p { c.tss p with eip := eip, eflags := eflags } }

/-- `PROC_INIT` -/
def procEntries (m : Image) (c : Cpu) : Cpu :=
  let c := setEntry c (m.tssPtr 0) m.idle 0x00000202
  let c := setEntry c (m.tssPtr 1) m.initProc 0x00000202
  setEntry c (m.tssPtr 2) m.systemTask 0x00003202

/-- What `proc_init` does with the tasks; `none` if the processor refuses a selector. -/
def procInitTasks (m : Image) (c : Cpu) : Option Cpu :=
  let c := { c with
    gdt := fun k => if FIRST_TSS_ENTRY ≤ k ∧ k < FIRST_TSS_ENTRY + 128 then (0, 0) else c.gdt k }
  let c := procEntries m ((List.range NR_INIT_PROCS).foldl (initTask m) c)
  -- the nested-task flag is cleared
  let c := { c with regs := { c.regs with eflags := c.regs.eflags &&& 0xFFFFBFFF } }
  (c.ltr (TSS 0)).bind fun c => c.lldt (LDT 0)

/-- `switch_to`: nothing for the current process, and else a jump to the TSS of process `n`. -/
def switchTo (c : Cpu) (current n : Int) : Option Cpu :=
  if n = current then some c else c.jump (TSS n.toNat)

/-! ## The descriptors -/

/-- Decoding the two words gives back the address, and the fields of the type byte. -/
theorem decode_setTssldtDesc (addr : Word) (type : BitVec 8) :
    decode (setTssldtDesc addr type).1 (setTssldtDesc addr type).2 =
      { base := addr, limit := 104, type := type.setWidth 4, s := type.getLsbD 4,
        dpl := type.extractLsb' 5 2, present := type.getLsbD 7, db := false,
        granularity := false } := by
  have hbase : (decode (setTssldtDesc addr type).1 (setTssldtDesc addr type).2).base = addr := by
    apply BitVec.eq_of_getLsbD_eq
    intro i hi
    rw [getLsbD_base _ _ hi]
    interval_cases i <;> simp [setTssldtDesc, BitVec.getElem_rotateRight]
  have hlimit : (decode (setTssldtDesc addr type).1 (setTssldtDesc addr type).2).limit = 104 := by
    apply BitVec.eq_of_getLsbD_eq
    intro i hi
    rw [getLsbD_limit _ _ hi]
    interval_cases i <;> simp [setTssldtDesc]
  have htype : (decode (setTssldtDesc addr type).1 (setTssldtDesc addr type).2).type =
      type.setWidth 4 := by
    apply BitVec.eq_of_getLsbD_eq
    intro i hi
    interval_cases i <;> simp [decode, setTssldtDesc]
  have hdpl : (decode (setTssldtDesc addr type).1 (setTssldtDesc addr type).2).dpl =
      type.extractLsb' 5 2 := by
    apply BitVec.eq_of_getLsbD_eq
    intro i hi
    interval_cases i <;> simp [decode, setTssldtDesc]
  have hflags : (decode (setTssldtDesc addr type).1 (setTssldtDesc addr type).2).s =
        type.getLsbD 4 ∧
      (decode (setTssldtDesc addr type).1 (setTssldtDesc addr type).2).present =
        type.getLsbD 7 ∧
      (decode (setTssldtDesc addr type).1 (setTssldtDesc addr type).2).db = false ∧
      (decode (setTssldtDesc addr type).1 (setTssldtDesc addr type).2).granularity = false := by
    simp [decode, setTssldtDesc]
  cases hd : decode (setTssldtDesc addr type).1 (setTssldtDesc addr type).2 with
  | mk base limit type' s dpl present db granularity =>
    simp only [hd] at hbase hlimit htype hdpl hflags
    obtain ⟨rfl, rfl, rfl, rfl⟩ := hflags
    rw [hbase, hlimit, htype, hdpl]

/-! ## The tasks after `proc_init` -/

theorem index_TSS {i : Nat} (hi : i < NR_INIT_PROCS) : index (TSS i) = FIRST_TSS_ENTRY + i * 2 := by
  have : i < 3 := hi
  interval_cases i <;> rfl

theorem index_LDT {i : Nat} (hi : i < NR_INIT_PROCS) : index (LDT i) = FIRST_LDT_ENTRY + i * 2 := by
  have : i < 3 := hi
  interval_cases i <;> rfl

/-- The process structures do not overlap. -/
theorem tssPtr_inj (m : Image) {i j : Nat} (hi : i < NR_INIT_PROCS) (hj : j < NR_INIT_PROCS)
    (h : m.tssPtr i = m.tssPtr j) : i = j := by
  have hi' : i < 3 := hi
  have hj' : j < 3 := hj
  simp only [Image.tssPtr, Image.procPtr, BitVec.add_left_inj, BitVec.add_right_inj] at h
  interval_cases i <;> interval_cases j <;> first | rfl | (revert h; decide)

theorem available_setTssDesc (addr : Word) :
    AvailableTss (decode (setTssDesc addr).1 (setTssDesc addr).2) := by
  rw [setTssDesc, decode_setTssldtDesc]
  exact ⟨rfl, rfl, rfl, by simp [Segment.lastOffset]⟩

theorem isLdt_setLdtDesc (addr : Word) :
    IsLdt (decode (setLdtDesc addr).1 (setLdtDesc addr).2) := by
  rw [setLdtDesc, decode_setTssldtDesc]
  exact ⟨rfl, rfl, rfl⟩

/-- The tasks of the initial processes. -/
def tasks (m : Image) : Wiring (Fin NR_INIT_PROCS) where
  tss i := TSS i
  ldt i := LDT i
  desc i := setTssDesc (m.tssPtr i)
  ldtDesc i := setLdtDesc (m.ldtPtr i)
  cr3 _ := PAGE_DIR_ADDR
  tss_inGdt := by decide
  ldt_inGdt := by decide
  available i := available_setTssDesc _
  isLdt i := isLdt_setLdtDesc _
  tss_inj := by decide
  ldt_ne := by decide
  base_inj i j h := by
    simp only [setTssDesc, decode_setTssldtDesc] at h
    exact Fin.ext (tssPtr_inj m i.isLt j.isLt h)

theorem tasks_base (m : Image) (i : Fin NR_INIT_PROCS) : (tasks m).base i = m.tssPtr i := by
  simp [Wiring.base, tasks, setTssDesc, decode_setTssldtDesc]

/-- The TSS `t` of process 0 as the loop leaves it in process `i`. -/
def taskTss (m : Image) (t : Tss) (i : Nat) : Tss :=
  { t with esp0 := PAGE_SIZE + m.procPtr i, ldt := LDT i, esp := 0x4000000, ebp := 0x4000000 }

/-- The first `n` turns of the loop. -/
theorem initTasks (m : Image) (c : Cpu) {n : Nat} (hn : n ≤ NR_INIT_PROCS) :
    let c' := (List.range n).foldl (initTask m) c
    (∀ i < n, c'.tss (m.tssPtr i) = taskTss m (c.tss (m.tssPtr 0)) i ∧
      c'.gdt (FIRST_TSS_ENTRY + i * 2) = setTssDesc (m.tssPtr i) ∧
      c'.gdt (FIRST_LDT_ENTRY + i * 2) = setLdtDesc (m.ldtPtr i)) ∧
    (n = 0 → c'.tss (m.tssPtr 0) = c.tss (m.tssPtr 0)) ∧
    c'.regs = c.regs ∧ c'.cr3 = c.cr3 := by
  induction n with
  | zero => exact ⟨fun i hi => by omega, fun _ => rfl, rfl, rfl⟩
  | succ n ih =>
      obtain ⟨hdone, hzero, hregs, hcr3⟩ := ih (by omega)
      simp only [List.range_succ, List.foldl_append, List.foldl_cons, List.foldl_nil] at *
      set c₁ := (List.range n).foldl (initTask m) c with hc₁
      refine ⟨fun i hi => ?_, by omega, hregs, hcr3⟩
      by_cases h : i = n
      · subst h
        refine ⟨?_, ?_, ?_⟩
        · -- the TSS of process 0 is the first one, or already has been set up
          rcases Nat.eq_zero_or_pos i with rfl | hpos
          · simp [initTask, taskTss, hzero rfl]
          · simp [initTask, taskTss, (hdone 0 hpos).1]
        · simp [initTask, FIRST_TSS_ENTRY, FIRST_LDT_ENTRY]
        · simp [initTask]
      · have hlt : i < n := by omega
        have hne : m.tssPtr i ≠ m.tssPtr n := fun e => h (tssPtr_inj m (by omega) (by omega) e)
        obtain ⟨ht, hg, hl⟩ := hdone i hlt
        refine ⟨?_, ?_, ?_⟩
        · simpa [initTask, hne] using ht
        · have h₁ : FIRST_TSS_ENTRY + i * 2 ≠ FIRST_LDT_ENTRY + n * 2 := by
            simp only [FIRST_TSS_ENTRY, FIRST_LDT_ENTRY]
            omega
          have h₂ : FIRST_TSS_ENTRY + i * 2 ≠ FIRST_TSS_ENTRY + n * 2 := by omega
          simpa [initTask, Function.update_of_ne h₁, Function.update_of_ne h₂] using hg
        · have h₁ : FIRST_LDT_ENTRY + i * 2 ≠ FIRST_TSS_ENTRY + n * 2 := by
            simp only [FIRST_TSS_ENTRY, FIRST_LDT_ENTRY]
            omega
          have h₂ : FIRST_LDT_ENTRY + i * 2 ≠ FIRST_LDT_ENTRY + n * 2 := by omega
          simpa [initTask, Function.update_of_ne h₁, Function.update_of_ne h₂] using hl

/-- The entry of an initial process. -/
def Image.entry (m : Image) (i : Nat) : Word :=
  if i = PROC_IDLE_NR then m.idle else if i = PROC_INIT_NR then m.initProc else m.systemTask

/-- The registers with which an initial process starts. -/
def startRegs (m : Image) (i : Nat) : Regs :=
  { initTss.toRegs with
    eip := m.entry i
    eflags := if i = PROC_SYSTEM_NR then 0x00003202 else 0x00000202
    esp := 0x4000000
    ebp := 0x4000000 }

/-- What `PROC_INIT` makes of the TSS of an initial process. -/
theorem procEntries_tss (m : Image) (c : Cpu) {i : Nat} (hi : i < NR_INIT_PROCS) :
    (procEntries m c).tss (m.tssPtr i) = { c.tss (m.tssPtr i) with
      eip := (startRegs m i).eip, eflags := (startRegs m i).eflags } := by
  have hne : ∀ {i j : Nat}, i < NR_INIT_PROCS → j < NR_INIT_PROCS → i ≠ j →
      m.tssPtr i ≠ m.tssPtr j := fun hi hj h e => h (tssPtr_inj m hi hj e)
  have h01 := hne (i := 0) (j := 1) (by decide) (by decide) (by decide)
  have h02 := hne (i := 0) (j := 2) (by decide) (by decide) (by decide)
  have h12 := hne (i := 1) (j := 2) (by decide) (by decide) (by decide)
  have : i < 3 := hi
  interval_cases i <;>
    simp [procEntries, setEntry, startRegs, Image.entry, h01, h02, h12, h01.symm, h02.symm,
      h12.symm, PROC_IDLE_NR, PROC_INIT_NR, PROC_SYSTEM_NR]

/-- The end of `proc_init`: the idle process becomes the current task. -/
theorem wired_of_ltr (m : Image) {c : Cpu} (hc : c.cr3 = PAGE_DIR_ADDR)
    (hg : ∀ i < NR_INIT_PROCS, c.gdt (FIRST_TSS_ENTRY + i * 2) = setTssDesc (m.tssPtr i))
    (hl : ∀ i < NR_INIT_PROCS, c.gdt (FIRST_LDT_ENTRY + i * 2) = setLdtDesc (m.ldtPtr i))
    (ht : ∀ i < NR_INIT_PROCS, (c.tss (m.tssPtr i)).ldt = LDT i ∧
      (c.tss (m.tssPtr i)).cr3 = PAGE_DIR_ADDR) :
    ∃ c', ((c.ltr (TSS 0)).bind fun c => c.lldt (LDT 0)) = some c' ∧
      Wired (tasks m) c' ⟨0, by decide⟩ ∧ c'.tss = c.tss := by
  have hav : AvailableTss (c.descriptor (TSS 0)) := by
    unfold Cpu.descriptor
    rw [index_TSS (by decide), hg 0 (by decide)]
    exact available_setTssDesc _
  rw [Cpu.ltr, if_pos ⟨by decide, hav⟩, Option.bind_some]
  set c₁ : Cpu := { c.writeGdt _ _ with tr := TSS 0 } with hc₁
  -- only the descriptor of the TSS of process 0 has changed
  have hgdt : ∀ k, k ≠ FIRST_TSS_ENTRY → c₁.gdt k = c.gdt k := by
    intro k hk
    exact Function.update_of_ne (by rw [index_TSS (by decide)]; simpa using hk) _ _
  have hldt : ∀ i < NR_INIT_PROCS, c₁.gdt (index (LDT i)) = setLdtDesc (m.ldtPtr i) := by
    intro i hi
    rw [index_LDT hi, hgdt _ (by simp only [FIRST_TSS_ENTRY, FIRST_LDT_ENTRY]; omega), hl i hi]
  have hisLdt : IsLdt (c₁.descriptor (LDT 0)) := by
    unfold Cpu.descriptor
    rw [hldt 0 (by decide)]
    exact isLdt_setLdtDesc _
  rw [Cpu.lldt, if_pos ⟨by decide, hisLdt⟩]
  refine ⟨_, rfl, ⟨fun i => ?_, fun i => hldt i i.isLt, fun i => ?_, fun i => ?_, rfl, rfl, hc⟩,
    rfl⟩
  · show c₁.gdt (index (TSS i)) = _
    rw [index_TSS i.isLt]
    split_ifs with hi
    · subst hi
      show Function.update c.gdt (index (TSS 0)) (setBusy (c.gdt (index (TSS 0)))) FIRST_TSS_ENTRY
        = setBusy (setTssDesc (m.tssPtr 0))
      rw [index_TSS (by decide), hg 0 (by decide)]
      exact Function.update_self ..
    · have hpos : (i : Nat) ≠ 0 := fun h => hi (Fin.ext h)
      rw [hgdt _ (by omega), hg i i.isLt]
      rfl
  · rw [tasks_base]
    exact (ht i i.isLt).1
  · rw [tasks_base]
    exact (ht i i.isLt).2

/-- **After `proc_init`** the initial processes are tasks of the processor, the idle process is the
current one, and the others are about to start at their entries. -/
theorem procInitTasks_wired (m : Image) {c : Cpu} (hc : c.cr3 = PAGE_DIR_ADDR)
    (ht : c.tss (m.tssPtr 0) = initTss) :
    ∃ c', procInitTasks m c = some c' ∧ Wired (tasks m) c' ⟨0, by decide⟩ ∧
      ∀ i : Fin NR_INIT_PROCS, (i : Nat) ≠ 0 →
        context (tasks m) c' ⟨0, by decide⟩ i = startRegs m i := by
  unfold procInitTasks
  simp only []
  set c₀ : Cpu := { c with gdt := _ } with hc₀
  obtain ⟨hdone, -, -, hcr3⟩ := initTasks m c₀ (le_refl NR_INIT_PROCS)
  set c₁ := (List.range NR_INIT_PROCS).foldl (initTask m) c₀ with hc₁
  have htss : ∀ i < NR_INIT_PROCS, (procEntries m c₁).tss (m.tssPtr i) =
      { taskTss m initTss i with
        eip := (startRegs m i).eip, eflags := (startRegs m i).eflags } := by
    intro i hi
    rw [procEntries_tss m c₁ hi, (hdone i hi).1, ← ht]
  obtain ⟨c', hc', hw, htss'⟩ := wired_of_ltr m
    (c := { procEntries m c₁ with regs := { (procEntries m c₁).regs with
      eflags := (procEntries m c₁).regs.eflags &&& 0xFFFFBFFF } })
    (hcr3.trans hc) (fun i hi => (hdone i hi).2.1) (fun i hi => (hdone i hi).2.2)
    (fun i hi => by simp only [htss i hi]; exact ⟨rfl, rfl⟩)
  refine ⟨c', hc', hw, fun i hi => ?_⟩
  rw [context, if_neg (fun h => hi (congrArg Fin.val h)), htss', tasks_base]
  simp only [htss i i.isLt]
  rfl

end Mks.Process
