import Mks.Message.System
import Mks.Process.Order

set_option autoImplicit false

/-! # Scheduling by the kernel

The message functions change the scheduler's state in one way only: they wake a process or put
the current one to sleep, and then call `schedule`. This holds in every state, so the priority
law of `Process/Priority.lean` holds for the kernel in any environment that wakes processes, puts
the current one to sleep and calls `schedule` as it likes.
-/

namespace Mks.Kernel

open Sched

variable {L : Layout} {k k' : Kernel}

/-! ## What the message functions do to the scheduler -/

/-- A message function returns `1` after a call of `schedule`, and otherwise leaves the scheduler
alone. -/
inductive Effect (s : Sched) : Int → Sched → Prop
  | none : Effect s (-1) s
  | schedule {s' : Sched} (h : s.schedule = some s') : Effect s 1 s'
  | wake {p : Int} {s₁ s' : Sched} (h₁ : s.setState p RUNNING = some s₁)
      (h : s₁.schedule = some s') : Effect s 1 s'
  | sleep {s₁ s' : Sched} (h0 : s.procCurrent ≠ PROC_IDLE_NR)
      (h₁ : s.setState s.procCurrent SLEEPING = some s₁) (h : s₁.schedule = some s') :
      Effect s 1 s'

theorem schedule_effect {r : Int} (h : (k.schedule.map fun k => ((1 : Int), k)) = some (r, k')) :
    r = 1 ∧ k.sched.schedule = some k'.sched := by
  simp only [schedule, Option.map_map, Option.map_eq_some_iff, Function.comp_apply,
    Prod.mk.injEq] at h
  obtain ⟨s, hs, rfl, rfl⟩ := h
  exact ⟨rfl, hs⟩

theorem setState_effect {p st r : Int}
    (h : ((k.setState p st).bind fun k => k.schedule.map fun k => ((1 : Int), k)) = some (r, k')) :
    r = 1 ∧ ∃ s₁, k.sched.setState p st = some s₁ ∧ s₁.schedule = some k'.sched := by
  obtain ⟨k₁, hk₁, h⟩ := Option.bind_eq_some_iff.mp h
  obtain ⟨s₁, hs₁, rfl⟩ := Option.map_eq_some_iff.mp hk₁
  obtain ⟨rfl, hs⟩ := schedule_effect h
  exact ⟨rfl, s₁, hs₁, hs⟩

theorem wake_effect {p r : Int} (h : ((k.setState p RUNNING).bind fun k =>
    k.schedule.map fun k => ((1 : Int), k)) = some (r, k')) : Effect k.sched r k'.sched := by
  obtain ⟨rfl, s₁, h₁, hs⟩ := setState_effect h
  exact .wake h₁ hs

theorem enqueue_sched {q : MsgQueue} {p : NodeId} {node : MsgStruct} {k₁ : Kernel}
    (h : k.enqueue q p node = some k₁) : k₁.sched = k.sched := by
  obtain ⟨links, -, rfl⟩ := Option.map_eq_some_iff.mp h
  rfl

theorem block_effect {q : MsgQueue} {p r : Int} {node : MsgStruct} (hp : p = k.sched.procCurrent)
    (h0 : p ≠ PROC_IDLE_NR)
    (h : ((k.enqueue q (.stack p) node).bind fun k => (k.setState p SLEEPING).bind fun k =>
      k.schedule.map fun k => ((1 : Int), k)) = some (r, k')) : Effect k.sched r k'.sched := by
  obtain ⟨k₁, hk₁, h⟩ := Option.bind_eq_some_iff.mp h
  obtain ⟨rfl, s₁, h₁, hs⟩ := setState_effect h
  rw [enqueue_sched hk₁, hp] at h₁
  exact .sleep (hp ▸ h0) h₁ hs

@[simp] theorem write_sched (a v : Int) : (k.write a v).sched = k.sched := rfl

@[simp] theorem unlink_sched (q : MsgQueue) (t : Option NodeId) (p : NodeId) :
    (k.unlink q t p).sched = k.sched := rfl

theorem smallSend_effect {src dest msg r : Int}
    (hsrc : src = MSG_HARDWARE ∨ src = k.sched.procCurrent ∧ src ≠ PROC_IDLE_NR)
    (h : k.smallSend src dest msg = some (r, k')) : Effect k.sched r k'.sched := by
  unfold smallSend at h
  split at h
  · cases h; exact .none
  split at h
  · cases h; exact .none
  obtain ⟨⟨t, p⟩, -, h⟩ := Option.bind_eq_some_iff.mp h
  cases p with
  | some p =>
      refine (?_ : Kernel.sched _ = k.sched) ▸ wake_effect h
      show Kernel.sched (ite _ _ _) = _
      split_ifs <;> rfl
  | none =>
      obtain ⟨b, -, h⟩ := Option.bind_eq_some_iff.mp h
      split_ifs at h with hb hhw
      · cases h; exact .none
      · cases hfree : k.freeSlot with
        | none =>
            rw [hfree] at h
            cases h
            exact .none
        | some i =>
            rw [hfree] at h
            obtain ⟨k₁, hk₁, h⟩ := Option.bind_eq_some_iff.mp h
            obtain ⟨rfl, hs⟩ := schedule_effect h
            exact .schedule (enqueue_sched hk₁ ▸ hs)
      · obtain ⟨hsrc, h0⟩ := hsrc.resolve_left hhw
        exact block_effect hsrc h0 h

theorem smallReceive_effect {src dest msg r : Int} (hdest : dest = k.sched.procCurrent)
    (h0 : dest ≠ PROC_IDLE_NR) (h : k.smallReceive src dest msg = some (r, k')) :
    Effect k.sched r k'.sched := by
  unfold smallReceive at h
  split at h
  · cases h; exact .none
  split at h
  · cases h; exact .none
  obtain ⟨⟨t, p⟩, -, h⟩ := Option.bind_eq_some_iff.mp h
  cases p with
  | some p =>
      simp only [] at h
      generalize hk₁ : unlink _ _ _ _ = k₁ at h
      have hsched : k₁.sched = k.sched := by
        rw [← hk₁]
        simp [apply_ite Kernel.sched]
      split at h
      · obtain ⟨rfl, hs⟩ := schedule_effect h
        exact .schedule (hsched ▸ hs)
      · exact hsched ▸ wake_effect h
  | none =>
      obtain ⟨b, -, h⟩ := Option.bind_eq_some_iff.mp h
      split_ifs at h with hb
      · cases h; exact .none
      · exact block_effect hdest h0 h

theorem bigSend_effect {n : Nat} {src dest msg r : Int} (hsrc : src = k.sched.procCurrent)
    (h0 : src ≠ PROC_IDLE_NR) (h : k.bigSend n src dest msg = some (r, k')) :
    Effect k.sched r k'.sched := by
  unfold bigSend at h
  split at h
  · cases h; exact .none
  split at h
  · cases h; exact .none
  obtain ⟨⟨t, p⟩, -, h⟩ := Option.bind_eq_some_iff.mp h
  cases p with
  | some p =>
      obtain ⟨mem, -, h⟩ := Option.bind_eq_some_iff.mp h
      simpa [apply_ite Kernel.sched] using wake_effect h
  | none =>
      obtain ⟨b, -, h⟩ := Option.bind_eq_some_iff.mp h
      split_ifs at h with hb
      · cases h; exact .none
      · exact block_effect hsrc h0 h

theorem bigReceive_effect {n : Nat} {src dest msg r : Int} (hdest : dest = k.sched.procCurrent)
    (h0 : dest ≠ PROC_IDLE_NR) (h : k.bigReceive n src dest msg = some (r, k')) :
    Effect k.sched r k'.sched := by
  unfold bigReceive at h
  split at h
  · cases h; exact .none
  split at h
  · cases h; exact .none
  obtain ⟨⟨t, p⟩, -, h⟩ := Option.bind_eq_some_iff.mp h
  cases p with
  | some p =>
      obtain ⟨mem, -, h⟩ := Option.bind_eq_some_iff.mp h
      simpa [apply_ite Kernel.sched] using wake_effect h
  | none =>
      obtain ⟨b, -, h⟩ := Option.bind_eq_some_iff.mp h
      split_ifs at h with hb
      · cases h; exact .none
      · exact block_effect hdest h0 h

theorem intrMsg_effect {n : Nat} {f ebx ecx r : Int} (hs : k.sched.Ok)
    (h0 : k.sched.procCurrent ≠ PROC_IDLE_NR) (h : k.intrMsg n L f ebx ecx = some (r, k')) :
    Effect k.sched r k'.sched := by
  obtain ⟨cur, hcur⟩ := hs.current
  have hpid : cur.pid = k.sched.procCurrent := (hs.table _ _ hcur).2.2.1
  unfold intrMsg doIntrMsg at h
  simp only [write_sched, hcur, Option.bind_some, hpid] at h
  split_ifs at h
  · cases h; exact .none
  · exact smallSend_effect (k := k.saved L ebx ecx) (.inr ⟨rfl, h0⟩) h
  · exact smallReceive_effect (k := k.saved L ebx ecx) rfl h0 h
  · exact bigSend_effect (k := k.saved L ebx ecx) rfl h0 h
  · exact bigReceive_effect (k := k.saved L ebx ecx) rfl h0 h
  · cases h; exact .none

/-! ## The priority law -/

theorem schedule_highest {s s' : Sched} (h : s.Ok) (hs : s.schedule = some s') :
    s'.Ok ∧ HighestRuns s' := by
  obtain ⟨s₁, h₁, -, hok, hmin⟩ := schedule_minimal h
  obtain rfl := Option.some.inj (hs.symm.trans h₁)
  exact ⟨hok, hmin⟩

theorem Effect.ok {s s' : Sched} {r : Int} (he : Effect s r s') (h : s.Ok) :
    s'.Ok ∧ (r = 1 → HighestRuns s') := by
  cases he with
  | none => exact ⟨h, fun hr => absurd hr (by decide)⟩
  | schedule hs => exact (schedule_highest h hs).imp_right fun hm _ => hm
  | wake h₁ hs =>
      have hok := (setState_spec h h₁ (.inl rfl)).1.ok
      exact (schedule_highest hok hs).imp_right fun hm _ => hm
  | sleep h0 h₁ hs =>
      have hok := (setState_spec h h₁ (.inr ⟨rfl, h0⟩)).1.ok
      exact (schedule_highest hok hs).imp_right fun hm _ => hm

/-- A clock tick that ends the time slice of user code calls `schedule`. -/
theorem clock_highest {s s' : Sched} {cpl : Int} (h : s.Ok) (hs : s.doIntrClock cpl = some s') :
    s'.Ok ∧ (cpl ≠ 0 → (∃ cur, s.proc s.procCurrent = some cur ∧ cur.counter ≤ 1) →
      HighestRuns s') := by
  obtain ⟨cur, hcur⟩ := h.current
  have h₀ : Sched.OkWith { s with jiffies := s.jiffies + 1 } s.ready :=
    ⟨h.table, h.idle, h.current, h.shape, h.member⟩
  obtain ⟨s₁, h₁, hok₁, -, -, hcur₁⟩ := h₀.count hcur
    (f := fun pr => if cpl ≠ 0 then { pr with utime := pr.utime + 1, counter := pr.counter - 1 }
      else { pr with stime := pr.stime + 1, counter := pr.counter - 1 })
    (by split_ifs <;> rfl)
  unfold doIntrClock at hs
  simp only [h₁, Option.bind_some, hcur₁] at hs
  obtain ⟨s₂, h₂, hok₂, -⟩ := hok₁.count hcur₁ (f := fun pr => { pr with counter := 0 }) rfl
  have hcounter : (if cpl ≠ 0 then { cur with utime := cur.utime + 1, counter := cur.counter - 1 }
      else { cur with stime := cur.stime + 1, counter := cur.counter - 1 } : ProcStruct).counter
      = cur.counter - 1 := by
    split_ifs <;> rfl
  rw [hcounter, h₂, Option.bind_some] at hs
  by_cases hpos : cur.counter - 1 > 0
  · rw [if_pos hpos] at hs
    obtain rfl := Option.some.inj hs
    refine ⟨hok₁.ok, fun _ => ?_⟩
    rintro ⟨cur', hcur', hle⟩
    obtain rfl := Option.some.inj (hcur.symm.trans hcur')
    omega
  rw [if_neg hpos] at hs
  by_cases hcpl : cpl = 0
  · rw [if_pos hcpl] at hs
    obtain rfl := Option.some.inj hs
    exact ⟨hok₂.ok, fun hne => absurd hcpl hne⟩
  · rw [if_neg hcpl] at hs
    exact (schedule_highest hok₂.ok hs).imp_right fun hm _ _ => hm

/-! ## The driven kernel -/

/-- What happens to the kernel: an operation, with its result, or a wake-up, a sleep or a call of
`schedule` from anywhere else. -/
inductive Driven
  | op (op : Op) (r : Int)
  | sched (e : SchedEvent)

def DrivenStep (L : Layout) (k : Kernel) (e : Driven) (k' : Kernel) : Prop :=
  match e with
  | .op op r => Step L k (op, r) k'
  | .sched e => ∃ s', SchedStep k.sched e s' ∧ k' = { k with sched := s' }

/-- The transitions that end with a call of `schedule`. -/
def CallsSchedule (t : Kernel × Driven × Kernel) : Prop :=
  match t.2.1 with
  | .op (.msg _ _ _) r | .op (.hardware _ _) r => r = 1
  | .op (.clock cpl) _ => cpl ≠ 0 ∧
      ∃ cur, t.1.sched.proc t.1.sched.procCurrent = some cur ∧ cur.counter ≤ 1
  | .op (.read _) _ | .op (.write _ _) _ | .op (.kernelStore _ _) _ => False
  | .sched e => e = .schedule

theorem driven_highest {e : Driven} (h : k.sched.Ok) (hs : DrivenStep L k e k') :
    k'.sched.Ok ∧ (CallsSchedule (k, e, k') → HighestRuns k'.sched) := by
  cases e with
  | sched e =>
      obtain ⟨s', hs', rfl⟩ := hs
      refine ⟨hs'.ok h, fun hc => ?_⟩
      have he : e = .schedule := hc
      subst he
      exact (schedule_highest h hs').2
  | op op r =>
      obtain ⟨n, hs⟩ := hs
      cases op with
      | msg f ebx ecx =>
          simp only [exec] at hs
          split_ifs at hs with h0
          exact (intrMsg_effect h h0 hs).ok h
      | hardware dest msg => exact (smallSend_effect (.inl rfl) hs).ok h
      | clock cpl =>
          obtain ⟨s', hs', he⟩ := Option.map_eq_some_iff.mp hs
          obtain ⟨-, rfl⟩ := Prod.mk.injEq .. ▸ he
          exact (clock_highest h hs').imp_right fun hm hc => hm hc.1 hc.2
      | read | write | kernelStore =>
          obtain ⟨mem, rfl⟩ := exec_access rfl hs
          exact ⟨h, fun hc => hc.elim⟩

/-- **The highest priority runs.** In every run from start-up, a call of `schedule` returns and
makes a process of the highest priority current, and so does every transition of the run that
ends with such a call. -/
theorem highest_priority_runs {k₀ : Kernel} {tr : List (Kernel × Driven × Kernel)}
    (h₀ : Init k₀.sched) (hr : Run (DrivenStep L) k₀ tr k) :
    (∃ s', k.sched.schedule = some s' ∧ HighestRuns s') ∧
      ∀ t ∈ tr, CallsSchedule t → HighestRuns t.2.2.sched := by
  have hinv : k.sched.Ok ∧ ∀ t ∈ tr, CallsSchedule t → HighestRuns t.2.2.sched := by
    induction hr with
    | nil => exact ⟨h₀.ok, by simp⟩
    | snoc hr hs ih =>
        obtain ⟨hok, hall⟩ := ih
        obtain ⟨hok', hm⟩ := driven_highest hok hs
        refine ⟨hok', fun t ht => ?_⟩
        rcases List.mem_append.mp ht with ht | ht
        · exact hall t ht
        · rw [List.mem_singleton.mp ht]
          exact hm
  obtain ⟨s', hs', -, -, hmin⟩ := schedule_minimal hinv.1
  exact ⟨⟨s', hs', hmin⟩, hinv.2⟩

/-- A clock tick at start-up selects the system task, the only process of type 1. -/
theorem highest_priority_runs_clock : ∃ k tr,
    Run (DrivenStep (stackLayout 0x18000)) (start blank) tr k ∧ k.sched.procCurrent = 2 ∧
      (∃ s', k.sched.schedule = some s' ∧ HighestRuns s') ∧
      ∀ t ∈ tr, CallsSchedule t → HighestRuns t.2.2.sched := by
  have hex : ((start blank).exec 0 (stackLayout 0x18000) (.clock 3)).map
      (fun r => (r.1, r.2.sched.procCurrent)) = some (0, 2) := by decide +kernel
  obtain ⟨⟨r, k⟩, hk, he⟩ := Option.map_eq_some_iff.mp hex
  obtain ⟨rfl, hcur⟩ := Prod.mk.injEq .. ▸ he
  have hr : Run (DrivenStep (stackLayout 0x18000)) (start blank) _ k :=
    .snoc (e := Driven.op (.clock 3) 0) .nil ⟨0, hk⟩
  exact ⟨k, _, hr, hcur, highest_priority_runs (start_start blank).sched hr⟩

end Mks.Kernel
