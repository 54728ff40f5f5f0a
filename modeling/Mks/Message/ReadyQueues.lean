import Mks.Message.Scheduling

set_option autoImplicit false

/-! # The ready queues outside `schedule()`

An operation of the kernel changes the scheduler's variables in a few places: it wakes a process
or puts the current one to sleep, counts a clock tick, and calls `schedule()`. `AccessStep` is one
of these accesses. The ready queues are well formed after every sequence of accesses
(`Access.wellFormed`), and what an operation does is such a sequence (`step_accesses`); so they
are well formed between two operations and at every point of an operation outside `schedule()`.
-/

namespace Mks.Sched

open Linked

/-- The ready queues are three disjoint finite lists of processes that are ready to run. -/
structure WellFormed (s : Sched) : Prop where
  /-- A queue is a finite chain that ends in null, and its tail is the last element. -/
  chain : ∀ q, Queue s.links.next (s.links.head q) (s.links.tail q) (s.ready q)
  empty : ∀ q, s.ready q = [] → s.links.head q = none ∧ s.links.tail q = none
  nodup : ∀ q, (s.ready q).Nodup
  disjoint : ∀ q q' i, i ∈ s.ready q → i ∈ s.ready q' → q = q'
  member : ∀ q, ∀ i ∈ s.ready q, i ≠ s.procCurrent ∧ i ≠ PROC_IDLE_NR ∧
    ∃ pr, s.proc i = some pr ∧ pr.pid = i ∧ pr.state = RUNNING ∧ pr.procType = q.type

theorem Ok.wellFormed {s : Sched} (h : Ok s) : WellFormed s where
  chain q := h.shape.queue q
  empty q hq := by
    constructor
    · exact (h.shape.head_eq_none q).mpr hq
    · rw [(h.shape.queue q).last, hq]
      rfl
  nodup q := (h.shape.queue q).nodup
  disjoint := h.shape.disjoint
  member q i hi := by
    obtain ⟨h0, hc, pr, hp, hr, ht⟩ := waits_iff.mp (h.member q i hi)
    exact ⟨hc, h0, pr, hp, (h.table i pr hp).2.2.1, hr, ht⟩

/-! ## Accesses -/

/-- The accesses of the kernel to the scheduler's variables. -/
inductive Access
  | event (e : SchedEvent)
  /-- `jiffies++` -/
  | jiffy
  /-- `utime++` or `stime++`, and `--counter` -/
  | tick (cpl : Int)
  /-- `proc_current->counter = 0` -/
  | expire

inductive AccessStep (s : Sched) : Access → Sched → Prop
  | event {e : SchedEvent} {s' : Sched} (h : SchedStep s e s') : AccessStep s (.event e) s'
  | jiffy : AccessStep s .jiffy { s with jiffies := s.jiffies + 1 }
  | tick {cpl : Int} {s' : Sched} (h : (s.modify s.procCurrent fun pr =>
      if cpl ≠ 0 then { pr with utime := pr.utime + 1, counter := pr.counter - 1 }
      else { pr with stime := pr.stime + 1, counter := pr.counter - 1 }) = some s') :
      AccessStep s (.tick cpl) s'
  | expire {s' : Sched} (h : (s.modify s.procCurrent fun pr => { pr with counter := 0 }) = some s') :
      AccessStep s .expire s'

/-- Assignments to the counters of the current process keep the invariant. -/
theorem Ok.modify {s s' : Sched} (h : Ok s) {f : ProcStruct → ProcStruct}
    (hs : s.modify s.procCurrent f = some s') (hf : ∀ pr, (f pr).status = pr.status) : Ok s' := by
  obtain ⟨cur, hcur⟩ := h.current
  obtain ⟨s₁, h₁, hok, -⟩ := OkWith.count h hcur (hf cur)
  obtain rfl := Option.some.inj (hs.symm.trans h₁)
  exact hok.ok

theorem AccessStep.ok {s s' : Sched} {a : Access} (h : Ok s) (ha : AccessStep s a s') : Ok s' := by
  cases ha with
  | event he => exact he.ok h
  | jiffy => exact ⟨h.table, h.idle, h.current, h.shape, h.member⟩
  | tick hs => exact h.modify hs fun pr => by split_ifs <;> rfl
  | expire hs => exact h.modify hs fun _ => rfl

theorem run_accesses_ok {s s' : Sched} {w : List (Sched × Access × Sched)} (h : Ok s)
    (hw : Run AccessStep s w s') : Ok s' :=
  hw.invariant h fun h ha => ha.ok h

/-- The accesses of the clock interrupt handler. -/
theorem doIntrClock_accesses {s s' : Sched} {cpl : Int} (h : s.doIntrClock cpl = some s') :
    ∃ w, Run AccessStep s w s' := by
  unfold doIntrClock at h
  obtain ⟨s₁, h₁, h⟩ := Option.bind_eq_some_iff.mp h
  have hj : Run AccessStep s _ _ := Run.nil.snoc .jiffy
  have hw : Run AccessStep s _ s₁ := hj.snoc (.tick h₁)
  obtain ⟨cur, -, h⟩ := Option.bind_eq_some_iff.mp h
  split at h
  · obtain rfl := Option.some.inj h
    exact ⟨_, hw⟩
  -- the time slice is used up
  obtain ⟨s₂, h₂, h⟩ := Option.bind_eq_some_iff.mp h
  have hw₂ : Run AccessStep s _ s₂ := hw.snoc (.expire h₂)
  split at h
  · obtain rfl := Option.some.inj h
    exact ⟨_, hw₂⟩
  · exact ⟨_, hw₂.snoc (.event (e := .schedule) h)⟩

end Mks.Sched

namespace Mks.Kernel

open Sched

variable {L : Layout} {k k' : Kernel}

theorem Effect.accesses {s s' : Sched} {r : Int} (he : Effect s r s') :
    ∃ w, Run AccessStep s w s' := by
  cases he with
  | none => exact ⟨[], .nil⟩
  | schedule h => exact ⟨_, Run.nil.snoc (.event (e := .schedule) h)⟩
  | @wake p s₁ _ h₁ h =>
      have hw : Run AccessStep s _ s₁ := Run.nil.snoc (.event (e := .wake p) h₁)
      exact ⟨_, hw.snoc (.event (e := .schedule) h)⟩
  | @sleep s₁ _ h0 h₁ h =>
      have hw : Run AccessStep s _ s₁ := Run.nil.snoc (.event (e := .sleep) ⟨h0, h₁⟩)
      exact ⟨_, hw.snoc (.event (e := .schedule) h)⟩

/-- An operation of the kernel is a sequence of accesses to the scheduler's variables. -/
theorem step_accesses {e : Op × Int} (h : k.sched.Ok) (hs : Step L k e k') :
    ∃ w, Run AccessStep k.sched w k'.sched := by
  obtain ⟨op, r⟩ := e
  obtain ⟨n, hs⟩ := hs
  cases op with
  | msg f ebx ecx =>
      simp only [exec] at hs
      split_ifs at hs with h0
      exact (intrMsg_effect h h0 hs).accesses
  | hardware dest msg => exact (smallSend_effect (.inl rfl) hs).accesses
  | clock cpl =>
      obtain ⟨s', hs', he⟩ := Option.map_eq_some_iff.mp hs
      obtain ⟨-, rfl⟩ := Prod.mk.injEq .. ▸ he
      exact doIntrClock_accesses hs'
  | read | write | kernelStore =>
      obtain ⟨mem, rfl⟩ := exec_access rfl hs
      exact ⟨[], .nil⟩

/-- **The ready queues stay well formed.** In every run of the kernel each operation is a sequence
of accesses to the scheduler's variables, and after every sequence of accesses from a state of the
run the ready queues are well formed. -/
theorem ready_queues_well_formed {k₀ : Kernel} {tr : List (Kernel × (Op × Int) × Kernel)}
    (h₀ : Start k₀) (hr : Run (Step L) k₀ tr k) :
    (∀ t ∈ tr, ∃ w, Run AccessStep t.1.sched w t.2.2.sched) ∧
      ∀ w s, Run AccessStep k.sched w s → WellFormed s := by
  constructor
  · intro t ht
    obtain ⟨tr₁, tr₂, rfl⟩ := List.append_of_mem ht
    obtain ⟨hr₁, hs⟩ := hr.split
    exact step_accesses (run_ok h₀ hr₁).queues.sched hs
  · intro w s hw
    exact (run_accesses_ok (run_ok h₀ hr).queues.sched hw).wellFormed

/-- Process 2 has preempted the idle process, and process 1 waits. -/
theorem ready_queues_well_formed_clock : ∃ tr k,
    Run (Step (stackLayout 0x18000)) (start blank) tr k ∧ k.sched.ready .user = [1] ∧
    (∀ t ∈ tr, ∃ w, Run AccessStep t.1.sched w t.2.2.sched) ∧
      ∀ w s, Run AccessStep k.sched w s → WellFormed s := by
  have hex : (execs 0 (stackLayout 0x18000) [.clock 3] (start blank)).map
      (fun r => r.2.sched.ready .user) = some [1] := by decide +kernel
  obtain ⟨⟨tr, k⟩, hk, hready⟩ := Option.map_eq_some_iff.mp hex
  exact ⟨tr, k, execs_run hk, hready, ready_queues_well_formed (start_start blank) (execs_run hk)⟩

end Mks.Kernel
