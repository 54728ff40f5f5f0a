import Mks.Lib.Descriptor

set_option autoImplicit false

/-! # x86 task switches

A task of the processor is a task-state segment (TSS): the image of the registers in memory, found
through a descriptor of the global descriptor table (GDT). A far jump to the selector of a TSS saves
the registers in the TSS of the current task, which the task register holds, and loads them from
the new one. The busy bit of a TSS descriptor tells which task is current; a jump to a busy task is
refused.

`Wiring` lists the tasks of a system and `Wired` says that they are set up and that one of them is
current. Jumps between these tasks are never refused, and each task finds the registers as it left
them: a wired processor is one processor for each task (`Wired.jump`).
-/

namespace Mks.TaskSwitch

open Descriptor

/-- The registers that a task switch saves and loads. -/
structure Regs where
  eip : BitVec 32
  eflags : BitVec 32
  eax : BitVec 32
  ecx : BitVec 32
  edx : BitVec 32
  ebx : BitVec 32
  esp : BitVec 32
  ebp : BitVec 32
  esi : BitVec 32
  edi : BitVec 32
  es : BitVec 32
  cs : BitVec 32
  ss : BitVec 32
  ds : BitVec 32
  fs : BitVec 32
  gs : BitVec 32
  deriving DecidableEq

/-- A task-state segment. A task switch writes the registers only. -/
structure Tss extends Regs where
  backLink : BitVec 32
  esp0 : BitVec 32
  ss0 : BitVec 32
  esp1 : BitVec 32
  ss1 : BitVec 32
  esp2 : BitVec 32
  ss2 : BitVec 32
  cr3 : BitVec 32
  ldt : BitVec 32
  traceBitmap : BitVec 32
  deriving DecidableEq

/-- The TSS with the registers `r` saved in it. -/
def Tss.withRegs (t : Tss) (r : Regs) : Tss := { t with toRegs := r }

@[simp] theorem Tss.withRegs_toRegs (t : Tss) (r : Regs) : (t.withRegs r).toRegs = r := rfl

@[simp] theorem Tss.withRegs_ldt (t : Tss) (r : Regs) : (t.withRegs r).ldt = t.ldt := rfl

@[simp] theorem Tss.withRegs_cr3 (t : Tss) (r : Regs) : (t.withRegs r).cr3 = t.cr3 := rfl

/-- The index of a selector in its table. -/
def index (sel : BitVec 32) : Nat := (sel >>> 3).toNat

/-- What a task switch reads and writes: the GDT (by index), the task-state segments in memory (by
address) and the registers. -/
structure Cpu where
  gdt : Nat → BitVec 32 × BitVec 32
  tss : BitVec 32 → Tss
  tr : BitVec 32
  ldtr : BitVec 32
  cr3 : BitVec 32
  regs : Regs

/-- A TSS that is not busy. -/
def AvailableTss (d : Segment) : Prop :=
  d.s = false ∧ d.type = 9 ∧ d.present = true ∧ 103 ≤ d.lastOffset

def IsLdt (d : Segment) : Prop := d.s = false ∧ d.type = 2 ∧ d.present = true

instance (d : Segment) : Decidable (AvailableTss d) := inferInstanceAs (Decidable (_ ∧ _))

instance (d : Segment) : Decidable (IsLdt d) := inferInstanceAs (Decidable (_ ∧ _))

def setBusy (d : BitVec 32 × BitVec 32) : BitVec 32 × BitVec 32 := (d.1, d.2 ||| 0x200)

def clearBusy (d : BitVec 32 × BitVec 32) : BitVec 32 × BitVec 32 := (d.1, d.2 &&& ~~~0x200)

namespace Cpu

variable (c : Cpu)

/-- The descriptor of a selector of the GDT. -/
def descriptor (sel : BitVec 32) : Segment := decode (c.gdt (index sel)).1 (c.gdt (index sel)).2

def writeGdt (i : Nat) (d : BitVec 32 × BitVec 32) : Cpu :=
  { c with gdt := Function.update c.gdt i d }

/-- The selector names an entry of the GDT, which has 256. -/
def InGdt (sel : BitVec 32) : Prop := sel &&& 4 = 0 ∧ index sel < 256

instance (sel : BitVec 32) : Decidable (InGdt sel) := inferInstanceAs (Decidable (_ ∧ _))

/-- Load the task register; `none` if the processor refuses. -/
def ltr (sel : BitVec 32) : Option Cpu :=
  if InGdt sel ∧ AvailableTss (c.descriptor sel) then
    some { c.writeGdt (index sel) (setBusy (c.gdt (index sel))) with tr := sel }
  else none

/-- Load the register of the local descriptor table. -/
def lldt (sel : BitVec 32) : Option Cpu :=
  if InGdt sel ∧ IsLdt (c.descriptor sel) then some { c with ldtr := sel } else none

/-- The registers are saved in the TSS of the current task. -/
def save : Cpu :=
  let base := (c.descriptor c.tr).base
  { c with tss := Function.update c.tss base ((c.tss base).withRegs c.regs) }

/-- A far jump to a selector of a TSS; `none` if the processor refuses. -/
def jump (sel : BitVec 32) : Option Cpu :=
  if InGdt sel ∧ AvailableTss (c.descriptor sel) then
    let t := c.save.tss (c.descriptor sel).base
    let c := c.save.writeGdt (index c.tr) (clearBusy (c.gdt (index c.tr)))
    let c := c.writeGdt (index sel) (setBusy (c.gdt (index sel)))
    { c with tr := sel, cr3 := t.cr3, regs := t.toRegs }.lldt t.ldt
  else none

end Cpu

@[simp] theorem Cpu.save_gdt (c : Cpu) : c.save.gdt = c.gdt := rfl

/-! ## The busy bit -/

theorem base_setBusy (d : BitVec 32 × BitVec 32) :
    (decode (setBusy d).1 (setBusy d).2).base = (decode d.1 d.2).base := by
  apply BitVec.eq_of_getLsbD_eq
  intro i hi
  rw [getLsbD_base _ _ hi, getLsbD_base _ _ hi]
  interval_cases i <;> simp [setBusy]

theorem type_setBusy (d : BitVec 32 × BitVec 32) :
    (decode (setBusy d).1 (setBusy d).2).type = (decode d.1 d.2).type ||| 2 := by
  apply BitVec.eq_of_getLsbD_eq
  intro i hi
  interval_cases i <;> simp [decode, setBusy]

/-- A descriptor that was available is so again. -/
theorem clearBusy_setBusy {d : BitVec 32 × BitVec 32} (h : AvailableTss (decode d.1 d.2)) :
    clearBusy (setBusy d) = d := by
  have hbit : d.2[9] = false := by
    have h9 : (decode d.1 d.2).type.getLsbD 1 = false := by
      rw [h.2.1]
      rfl
    simpa [decode] using h9
  refine Prod.ext rfl (BitVec.eq_of_getLsbD_eq fun i hi => ?_)
  simp only [clearBusy, setBusy]
  interval_cases i <;> simp [hbit]

theorem not_available_setBusy (d : BitVec 32 × BitVec 32) :
    ¬ AvailableTss (decode (setBusy d).1 (setBusy d).2) := by
  rintro ⟨-, htype, -⟩
  rw [type_setBusy] at htype
  have hbit := congrArg (fun t : BitVec 4 => t.getLsbD 1) htype
  simp at hbit

/-! ## Wired processors -/

/-- The tasks `ι` of a system: the selectors of the TSS and of the LDT of each, the descriptor of
the TSS while the task is not current, that of the LDT, and the page directory. -/
structure Wiring (ι : Type) where
  tss : ι → BitVec 32
  ldt : ι → BitVec 32
  desc : ι → BitVec 32 × BitVec 32
  ldtDesc : ι → BitVec 32 × BitVec 32
  cr3 : ι → BitVec 32
  tss_inGdt : ∀ i, Cpu.InGdt (tss i)
  ldt_inGdt : ∀ i, Cpu.InGdt (ldt i)
  available : ∀ i, AvailableTss (decode (desc i).1 (desc i).2)
  isLdt : ∀ i, IsLdt (decode (ldtDesc i).1 (ldtDesc i).2)
  tss_inj : ∀ i j, index (tss i) = index (tss j) → i = j
  ldt_ne : ∀ i j, index (ldt i) ≠ index (tss j)
  base_inj : ∀ i j, (decode (desc i).1 (desc i).2).base = (decode (desc j).1 (desc j).2).base →
    i = j

section

variable {ι : Type} (W : Wiring ι)

/-- The address of the TSS of a task. -/
def Wiring.base (i : ι) : BitVec 32 := (decode (W.desc i).1 (W.desc i).2).base

theorem Wiring.base_ne {i j : ι} (h : i ≠ j) : W.base i ≠ W.base j :=
  fun e => h (W.base_inj i j e)

theorem Wiring.index_ne {i j : ι} (h : i ≠ j) : index (W.tss i) ≠ index (W.tss j) :=
  fun e => h (W.tss_inj i j e)

end

variable {ι : Type} [DecidableEq ι] (W : Wiring ι)

/-- The tasks of `W` are set up, and `cur` is the current one. -/
structure Wired (c : Cpu) (cur : ι) : Prop where
  gdt : ∀ i, c.gdt (index (W.tss i)) = if i = cur then setBusy (W.desc i) else W.desc i
  gdt_ldt : ∀ i, c.gdt (index (W.ldt i)) = W.ldtDesc i
  ldt : ∀ i, (c.tss (W.base i)).ldt = W.ldt i
  cr3 : ∀ i, (c.tss (W.base i)).cr3 = W.cr3 i
  tr : c.tr = W.tss cur
  ldtr : c.ldtr = W.ldt cur
  cr3_eq : c.cr3 = W.cr3 cur

/-- The registers of each task: those of the processor, or those in the TSS. -/
def context (c : Cpu) (cur i : ι) : Regs :=
  if i = cur then c.regs else (c.tss (W.base i)).toRegs

variable {W} {c : Cpu} {cur : ι}

theorem Wired.base_descriptor (h : Wired W c cur) (i : ι) :
    (c.descriptor (W.tss i)).base = W.base i := by
  unfold Cpu.descriptor Wiring.base
  rw [h.gdt i]
  split_ifs
  · exact base_setBusy _
  · rfl

/-- Only the current task is busy. -/
theorem Wired.available_iff (h : Wired W c cur) (i : ι) :
    AvailableTss (c.descriptor (W.tss i)) ↔ i ≠ cur := by
  unfold Cpu.descriptor
  rw [h.gdt i]
  split_ifs with hi
  · simpa [hi] using not_available_setBusy (W.desc cur)
  · simpa [hi] using W.available i

/-- Instructions of the current task change its registers only. -/
theorem Wired.instr (h : Wired W c cur) (r : Regs) :
    Wired W { c with regs := r } cur ∧
      context W { c with regs := r } cur = Function.update (context W c cur) cur r := by
  refine ⟨⟨h.gdt, h.gdt_ldt, h.ldt, h.cr3, h.tr, h.ldtr, h.cr3_eq⟩, funext fun i => ?_⟩
  by_cases hi : i = cur
  · subst hi
    simp [context]
  · simp [context, hi]

/-- The processor after a jump from task `cur` to task `j`. -/
def switched (W : Wiring ι) (c : Cpu) (cur j : ι) : Cpu where
  gdt := Function.update (Function.update c.gdt (index (W.tss cur)) (W.desc cur))
    (index (W.tss j)) (setBusy (W.desc j))
  tss := Function.update c.tss (W.base cur) ((c.tss (W.base cur)).withRegs c.regs)
  tr := W.tss j
  ldtr := W.ldt j
  cr3 := W.cr3 j
  regs := (c.tss (W.base j)).toRegs

theorem switched_gdt (j i : ι) (h : Wired W c cur) :
    (switched W c cur j).gdt (index (W.tss i)) =
      if i = j then setBusy (W.desc i) else W.desc i := by
  simp only [switched]
  by_cases hi : i = j
  · subst hi
    rw [Function.update_self, if_pos rfl]
  · rw [Function.update_of_ne (W.index_ne hi), if_neg hi]
    by_cases hic : i = cur
    · rw [hic, Function.update_self]
    · rw [Function.update_of_ne (W.index_ne hic), h.gdt, if_neg hic]

theorem switched_tss (j i : ι) :
    (switched W c cur j).tss (W.base i) =
      if i = cur then (c.tss (W.base i)).withRegs c.regs else c.tss (W.base i) := by
  simp only [switched]
  by_cases hi : i = cur
  · rw [hi, Function.update_self, if_pos rfl]
  · rw [Function.update_of_ne (W.base_ne hi), if_neg hi]

omit [DecidableEq ι] in
/-- The descriptors of the local tables are not touched. -/
theorem switched_ldt (j i : ι) :
    (switched W c cur j).gdt (index (W.ldt i)) = c.gdt (index (W.ldt i)) := by
  simp only [switched]
  rw [Function.update_of_ne (W.ldt_ne i j), Function.update_of_ne (W.ldt_ne i cur)]

theorem Wired.jump_eq (h : Wired W c cur) {j : ι} (hj : j ≠ cur) :
    c.jump (W.tss j) = some (switched W c cur j) := by
  have hindex := W.index_ne hj
  have hbase := W.base_ne hj
  have hclear : clearBusy (c.gdt (index (W.tss cur))) = W.desc cur := by
    rw [h.gdt, if_pos rfl, clearBusy_setBusy (W.available cur)]
  have hdesc : c.gdt (index (W.tss j)) = W.desc j := by rw [h.gdt, if_neg hj]
  have hsave : c.save.tss =
      Function.update c.tss (W.base cur) ((c.tss (W.base cur)).withRegs c.regs) := by
    unfold Cpu.save
    rw [h.tr, h.base_descriptor]
  unfold Cpu.jump
  rw [if_pos ⟨W.tss_inGdt j, (h.available_iff j).mpr hj⟩]
  simp only [Cpu.writeGdt, Cpu.save_gdt, h.tr, hclear, Function.update_of_ne hindex, hdesc,
    h.base_descriptor, hsave, Function.update_of_ne hbase, h.cr3, h.ldt]
  have hldt : IsLdt ((switched W c cur j).descriptor (W.ldt j)) := by
    unfold Cpu.descriptor
    rw [switched_ldt, h.gdt_ldt]
    exact W.isLdt j
  exact if_pos ⟨W.ldt_inGdt j, hldt⟩

/-- **A jump to another task** is not refused, makes that task current and changes the registers
of no task. -/
theorem Wired.jump (h : Wired W c cur) {j : ι} (hj : j ≠ cur) :
    ∃ c', c.jump (W.tss j) = some c' ∧ Wired W c' j ∧ context W c' j = context W c cur := by
  refine ⟨_, h.jump_eq hj, ⟨fun i => switched_gdt j i h, fun i => ?_, fun i => ?_, fun i => ?_,
    rfl, rfl, rfl⟩, funext fun i => ?_⟩
  · rw [switched_ldt]
    exact h.gdt_ldt i
  · rw [switched_tss, apply_ite Tss.ldt, Tss.withRegs_ldt, ite_self]
    exact h.ldt i
  · rw [switched_tss, apply_ite Tss.cr3, Tss.withRegs_cr3, ite_self]
    exact h.cr3 i
  · unfold context
    rw [switched_tss]
    by_cases hi : i = j
    · subst hi
      rw [if_pos rfl, if_neg hj]
      rfl
    · rw [if_neg hi, apply_ite Tss.toRegs, Tss.withRegs_toRegs]

end Mks.TaskSwitch
