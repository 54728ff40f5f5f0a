import Mks.Interrupt.Descriptors
import Mks.Lib.Nested

set_option autoImplicit false

/-! # Interrupts in each other

Two controllers 8259A deliver the interrupts of the hardware. `setup.asm` sets them up with all lines
masked, `intr_init` and `time_init` unmask those of the keyboard and of the clock. All gates but that
of the page fault leave interrupts on, and `do_intr_page` turns them on again once it has read the
address, so handlers are interrupted themselves; they tell the controller the end of their
interrupt, and the clock and the calls of the processes may switch to another process.
-/

namespace Mks.Interrupt

open Nested

/-! ## The controllers -/

/-- One controller: the vector of its line 0, its mask and its connection to the other one. -/
structure Chip where
  base : BitVec 8
  imr : BitVec 8
  cascade : BitVec 8
  autoEoi : Bool
  single : Bool
  needs4 : Bool
  /-- The initialisation word that is written next, 0 if the mask is. -/
  next : Nat

namespace Chip

/-- A write to the first port, of which only the first initialisation word changes the fields. -/
def command (c : Chip) (v : BitVec 8) : Chip :=
  if v.getLsbD 4 then
    { c with imr := 0, autoEoi := false, single := v.getLsbD 1, needs4 := v.getLsbD 0, next := 2 }
  else c

/-- A write to the second port. -/
def data (c : Chip) (v : BitVec 8) : Chip :=
  match c.next with
  | 2 => { c with
      base := v &&& 0xF8
      next := if c.single = false then 3 else if c.needs4 then 4 else 0 }
  | 3 => { c with cascade := v, next := if c.needs4 then 4 else 0 }
  | 4 => { c with autoEoi := v.getLsbD 1, next := 0 }
  | _ => { c with imr := v }

end Chip

structure Chips where
  master : Chip
  slave : Chip

namespace Chips

def outb (c : Chips) (value : BitVec 8) (port : Nat) : Chips :=
  if port = 0x20 then { c with master := c.master.command value }
  else if port = 0x21 then { c with master := c.master.data value }
  else if port = 0xA0 then { c with slave := c.slave.command value }
  else if port = 0xA1 then { c with slave := c.slave.data value }
  else c

/-- `inb(0x21)` -/
def mask (c : Chips) : BitVec 8 := c.master.imr

/-- `init_8259A` of `setup.asm` -/
def init8259A (c : Chips) : Chips :=
  let c := (c.outb 0x11 0x20).outb 0x11 0xA0
  let c := (c.outb 0x20 0x21).outb 0x28 0xA1
  let c := (c.outb 0x04 0x21).outb 0x02 0xA1
  let c := (c.outb 0x01 0x21).outb 0x01 0xA1
  (c.outb 0xFF 0x21).outb 0xFF 0xA1

/-- The last line of `intr_init`. -/
def intrInit (c : Chips) : Chips := c.outb (c.mask &&& 0xF9) 0x21

/-- The last line of `time_init`. -/
def timeInit (c : Chips) : Chips := c.outb (c.mask &&& ~~~0x01) 0x21

/-- The controllers when the processes start. -/
def started (c : Chips) : Chips := c.init8259A.intrInit.timeInit

/-- The lines of the first controller on which interrupts arrive: those that are not masked, and
that of the second controller only if that has a line that is not masked. The spurious interrupt
that a controller delivers on its line 7 when a request is withdrawn is left out. -/
def Raised (c : Chips) (l : Fin 8) : Prop :=
  c.master.imr.getLsbD l = false ∧
    (c.master.cascade.getLsbD l = true → ∃ i : Fin 8, c.slave.imr.getLsbD i = false)

/-- The vector of a line. -/
def vector (c : Chips) (l : Fin 8) : Nat := (c.master.base + BitVec.ofNat 8 l).toNat

theorem started_eq (c : Chips) : c.started =
    ⟨⟨0x20, 0xF8, 0x04, false, false, true, 0⟩, ⟨0x28, 0xFF, 0x02, false, false, true, 0⟩⟩ := by
  simp [started, init8259A, intrInit, timeInit, mask, outb, Chip.command, Chip.data]

theorem raised_started {c : Chips} {l : Fin 8} (h : c.started.Raised l) : l = 0 ∨ l = 1 := by
  rw [started_eq] at h
  revert l
  unfold Raised
  decide

end Chips

/-! ## The handlers -/

/-- What the functions in C do. `do_intr_clock` ends its interrupt first of all, and returns before
it switches if the time of the process is not over, or if it has interrupted the kernel.
`do_intr_page` reads the address and executes `sti`. -/
def Handler.actions : Handler → Bool → List Action
  | .doIntrClock, user => [.work, .eoi, .work] ++ if user then [.schedule] else []
  | .doIntrKeyboard, _ => [.work, .eoi]
  | .doIntrParallel, _ => [.eoi]
  | .doIntrPage, _ => [.work, .sti, .work]
  | _, _ => [.work]

/-- `do_intr_msg`: one of the message functions, which may call `schedule` before it returns. -/
def msgActions : List Action := [.work, .schedule]

/-- The handler of a vector. -/
def vectorActions (v : Nat) (user : Bool) : List Action :=
  ((intrTable v).map fun h => h.actions user).getD []

/-- The traps: the exceptions of the processor, and the vectors that processes may call. -/
def Trap (masked user : Bool) (todo : List Action) : Prop :=
  ∃ v g, idt v = some g ∧ (v < 20 ∨ (g.dpl = 3 ∧ user = true)) ∧ masked = decide (g.type = 14) ∧
    todo = if g.addr = .intrMsg then msgActions else vectorActions v user

def handlers (c : Chips) : Handlers (Fin 8) where
  raised := c.Raised
  interrupt l user := vectorActions (c.vector l) user
  trap := Trap

/-- The gates that processes may call. -/
theorem idt_dpl {v : Nat} {g : Gate} (h : idt v = some g) (hd : g.dpl = 3) :
    v = 3 ∨ v = 4 ∨ v = 5 ∨ v = 0x80 ∨ v = 0x88 := by
  by_contra hno
  rw [(idt_gate h).2, if_neg hno] at hd
  cases hd

/-- The handlers that a trap comes to only work, that of the page fault with interrupts on again. -/
theorem vectorActions_trap {v : Nat} (hv : v < 20 ∨ v = 0x88) (user : Bool) :
    vectorActions v user = if v = 14 then [.work, .sti, .work] else [.work] := by
  rw [vectorActions]
  simp only [intrTable, put_apply, fill_apply]
  rcases hv with h20 | rfl
  · interval_cases v <;> rfl
  · rfl

/-- A trap comes to one of these, or from a process to `do_intr_msg`. -/
theorem Trap.todo {masked user : Bool} {todo : List Action} (h : Trap masked user todo) :
    todo = [.work] ∨ todo = [.work, .sti, .work] ∨ user = true ∧ todo = msgActions := by
  obtain ⟨v, g, hg, hv, -, rfl⟩ := h
  have h256 : v ≤ 255 := by
    rcases hv with h20 | ⟨hd, -⟩
    · omega
    · rcases idt_dpl hg hd with rfl | rfl | rfl | rfl | rfl <;> decide
  have haddr := idt_addr h256
  rw [hg, Option.map_some, Option.some_inj] at haddr
  by_cases hmsg : v = 0x80
  · subst hmsg
    obtain ⟨-, hu⟩ := hv.resolve_left (by decide)
    rw [haddr]
    exact .inr (.inr ⟨hu, rfl⟩)
  · have hown : v < 20 ∨ v = 0x88 := by
      rcases hv with h20 | ⟨hd, -⟩
      · exact .inl h20
      · have := idt_dpl hg hd
        omega
    rw [vectorActions_trap hown, haddr, if_neg]
    · split_ifs
      · exact .inr (.inl rfl)
      · exact .inl rfl
    · split_ifs <;> simp [intrEnter, hwintrEnter]

/-- The two lines come to `do_intr_clock` and `do_intr_keyboard`. -/
theorem interrupt_actions {c : Chips} {l : Fin 8} (h : c.started.Raised l) (user : Bool) :
    (handlers c.started).interrupt l user =
      if l = 0 then Handler.doIntrClock.actions user else Handler.doIntrKeyboard.actions user := by
  show vectorActions (c.started.vector l) user = _
  rw [Chips.vector, Chips.started_eq, vectorActions]
  simp only [intrTable, put_apply, fill_apply]
  rcases Chips.raised_started h with rfl | rfl <;> rfl

/-- **The handlers are proper.** -/
theorem handlers_proper (c : Chips) : Proper (handlers c.started) where
  ends l u h := by
    rw [interrupt_actions h]
    split_ifs <;> cases u <;> decide
  orderly l u h := by
    rw [interrupt_actions h]
    split_ifs <;> cases u <;> decide
  stays l h := by
    rw [interrupt_actions h]
    split_ifs <;> decide
  trapEnds m u r h := by
    rcases h.todo with rfl | rfl | ⟨-, rfl⟩ <;> decide
  trapStays m r h := by
    rcases h.todo with rfl | rfl | ⟨hu, -⟩
    · decide
    · decide
    · cases hu

/-! ## Runs -/

variable {c : Chips} {q : Int} {s : State Int (Fin 8)} {f : Nested.Frame (Fin 8)}
  {fs : List (Nested.Frame (Fin 8))} {todo : List Action}

/-- **Every `outb(0x20, 0x20)` ends the interrupt of its own handler**, however the interrupts nest
and the processes are switched. -/
theorem eoi_is_own (hr : Reach (Step (handlers c.started)) ⟨q, fun _ => [], ∅⟩ s)
    (htop : s.top = { f with todo := .eoi :: todo } :: fs) :
    ∃ l, f.line = some l ∧ l ∈ s.inService ∧ endInterrupt s.inService = s.inService.erase l := by
  obtain ⟨l, hl, hmem, hend, -⟩ := (Ordered.reach (handlers_proper c) hr).own_eoi htop
  exact ⟨l, hl, hmem, hend⟩

theorem raised_clock (c : Chips) : c.started.Raised 0 := by
  rw [Chips.started_eq]
  exact ⟨by decide, by decide⟩

theorem raised_keyboard (c : Chips) : c.started.Raised 1 := by
  rw [Chips.started_eq]
  exact ⟨by decide, by decide⟩

/-- An interrupt that is delivered. -/
theorem delivered {s₀ : State Int (Fin 8)} (h : Reach (Step (handlers c.started)) s₀ s) {l : Fin 8}
    (hl : c.started.Raised l) (hon : s.off = false) (hprio : ∀ j ∈ s.inService, l < j) :
    ∃ s', Reach (Step (handlers c.started)) s₀ s' ∧
      s'.top = ⟨some l, false, if l = 0 then Handler.doIntrClock.actions s.top.isEmpty
        else Handler.doIntrKeyboard.actions s.top.isEmpty⟩ :: s.top ∧
      s'.inService = insert l s.inService := by
  refine ⟨_, h.snoc (.interrupt hl hon hprio), ?_, rfl⟩
  rw [State.put_top, interrupt_actions hl]

/-- A page fault is a trap with interrupts off. -/
theorem trap_page (user : Bool) : Trap true user [.work, .sti, .work] := by
  have haddr := idt_addr (v := 14) (by decide)
  obtain ⟨g, hg, hlabel⟩ := Option.map_eq_some_iff.mp haddr
  refine ⟨14, g, hg, .inl (by decide), ?_, ?_⟩
  · rw [(idt_gate hg).1]
    rfl
  · rw [hlabel, if_neg (by decide), vectorActions_trap (.inl (by decide)), if_pos rfl]

/-- The handler of a page fault, once it has executed `sti`. -/
theorem page_run (c : Chips) : ∃ s : State Int (Fin 8),
    Reach (Step (handlers c.started)) ⟨0, fun _ => [], ∅⟩ s ∧ s.top = [⟨none, false, [.work]⟩] ∧
    s.inService = ∅ := by
  have h₀ : Reach (Step (handlers c.started)) (⟨0, fun _ => [], ∅⟩ : State Int (Fin 8)) _ := .refl
  have h₁ := h₀.snoc (.trap (trap_page true))
  have h₂ := h₁.snoc (.work (f := ⟨none, true, []⟩) (State.put_top ..))
  exact ⟨_, h₂.snoc (.sti (f := ⟨none, true, []⟩) (State.put_top ..)), State.put_top .., rfl⟩

/-- The clock interrupts the handler of the keyboard, and that has interrupted a page fault. -/
theorem nested_run (c : Chips) : ∃ s : State Int (Fin 8),
    Reach (Step (handlers c.started)) ⟨0, fun _ => [], ∅⟩ s ∧
    s.top = [⟨some 0, false, [.eoi, .work]⟩, ⟨some 1, false, [.work, .eoi]⟩,
      ⟨none, false, [.work]⟩] ∧
    s.inService = {0, 1} := by
  obtain ⟨s₁, h₁, htop₁, hin₁⟩ := page_run c
  obtain ⟨s₂, h₂, htop₂, hin₂⟩ := delivered h₁ (raised_keyboard c)
    (by simp [State.off, htop₁]) (by simp [hin₁])
  rw [htop₁] at htop₂
  have htop₂ : s₂.top = [⟨some 1, false, [.work, .eoi]⟩, ⟨none, false, [.work]⟩] := htop₂
  obtain ⟨s₃, h₃, htop₃, hin₃⟩ := delivered h₂ (raised_clock c)
    (by simp [State.off, htop₂]) (by simp [hin₂, hin₁])
  rw [htop₂] at htop₃
  have htop₃ : s₃.top = [⟨some 0, false, [.work, .eoi, .work]⟩, ⟨some 1, false, [.work, .eoi]⟩,
      ⟨none, false, [.work]⟩] := htop₃
  refine ⟨_, h₃.snoc (.work (f := ⟨some 0, false, []⟩) htop₃), ?_, ?_⟩
  · rw [State.put_top]
  · show s₃.inService = _
    rw [hin₃, hin₂, hin₁]
    rfl

/-- The first end-of-interrupt is for the clock. -/
theorem eoi_is_own_nested : ∃ s : State Int (Fin 8),
    Reach (Step (handlers (Chips.started ⟨⟨0, 0, 0, false, false, false, 0⟩,
      ⟨0, 0, 0, false, false, false, 0⟩⟩))) ⟨0, fun _ => [], ∅⟩ s ∧ s.inService = {0, 1} ∧
    ∃ l, some 0 = some l ∧ l ∈ s.inService ∧ endInterrupt s.inService = s.inService.erase l := by
  obtain ⟨s, hr, htop, hin⟩ := nested_run
    ⟨⟨0, 0, 0, false, false, false, 0⟩, ⟨0, 0, 0, false, false, false, 0⟩⟩
  exact ⟨s, hr, hin, eoi_is_own (f := ⟨some 0, false, []⟩) hr htop⟩

/-- **The kernel is not preempted.** Where a process calls `schedule`, it is in its only handler, and
no interrupt is in service. The other processes have at most one handler each, which has ended its
interrupt. -/
theorem kernel_not_preempted (hr : Reach (Step (handlers c.started)) ⟨q, fun _ => [], ∅⟩ s) :
    (∀ (f : Nested.Frame (Fin 8)) fs todo, s.top = { f with todo := .schedule :: todo } :: fs →
      fs = [] ∧ s.inService = ∅) ∧
    (∀ p ≠ s.current, (s.stack p).length ≤ 1 ∧ ∀ f ∈ s.stack p, f.line ≠ none → .eoi ∉ f.todo) ∧
    ∀ l, l ∈ s.inService ↔ ∃ f ∈ s.top, f.line = some l ∧ .eoi ∈ f.todo := by
  have h := Ordered.reach (handlers_proper c) hr
  refine ⟨fun f fs todo htop => ?_, fun p hp => ⟨(h.others p hp).2, fun f hf hl hm => ?_⟩, ?_⟩
  · obtain ⟨hfs, hempty, -⟩ := h.switch_alone htop
    exact ⟨hfs, hempty⟩
  · obtain ⟨l, hl⟩ := Option.ne_none_iff_exists'.mp hl
    have hmem : l ∈ pendings (s.stack p) :=
      List.mem_filterMap.mpr ⟨f, hf, by rw [Nested.Frame.pending, if_pos hm, hl]⟩
    rw [(h.others p hp).1] at hmem
    cases hmem
  · intro l
    rw [h.service, List.mem_toFinset, pendings, List.mem_filterMap]
    refine exists_congr fun f => and_congr_right fun _ => ?_
    rw [Nested.Frame.pending]
    split_ifs with hm <;> simp [hm]

/-- While the clock interrupts the handler of the keyboard in a page fault, both lines are in
service. -/
theorem kernel_not_preempted_nested : ∃ s : State Int (Fin 8),
    Reach (Step (handlers (Chips.started ⟨⟨0, 0, 0, false, false, false, 0⟩,
      ⟨0, 0, 0, false, false, false, 0⟩⟩))) ⟨0, fun _ => [], ∅⟩ s ∧ s.top.length = 3 ∧
    ∀ l, l ∈ s.inService ↔ ∃ f ∈ s.top, f.line = some l ∧ .eoi ∈ f.todo := by
  obtain ⟨s, hr, htop, -⟩ := nested_run
    ⟨⟨0, 0, 0, false, false, false, 0⟩, ⟨0, 0, 0, false, false, false, 0⟩⟩
  exact ⟨s, hr, by rw [htop]; rfl, (kernel_not_preempted hr).2.2⟩

end Mks.Interrupt
