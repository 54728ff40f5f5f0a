import Mks.Message.Slices
import Mks.Process.Turns

set_option autoImplicit false

/-! # The order of service

Which processes get the processor, and in which order, while nobody of the priority of the current
process or of a higher one falls asleep or is woken. Every operation is then either a turn in the
sense of `Process/Turns.lean` or leaves the line alone (`step_line`), so the processes are served
in a fixed cycle (`served_in_cycle`). With an odd number of other ready processes, or with none,
each of them is in the cycle and has the processor within a bounded number of clock interrupts
(`served_within`); with an even number, half of them never have it (`starved`).
-/

namespace Mks.Sched

open Rotation

/-- Writing a counter or a time of the current process leaves the queues alone. -/
theorem OkWith.modify_current {s s' : Sched} {ql : ReadyQueue → List Int} (h : OkWith s ql)
    {pr : ProcStruct} (hp : s.proc s.procCurrent = some pr) {f : ProcStruct → ProcStruct}
    (hf : (f pr).status = pr.status) (hs : s.modify s.procCurrent f = some s') :
    OkWith s' ql ∧ Same s s' ∧ s'.procCurrent = s.procCurrent ∧
      s'.proc s'.procCurrent = some (f pr) := by
  obtain ⟨s₁, h₁, hsame, hl, hc⟩ := modify_spec hp hf
  obtain rfl := Option.some.inj (hs.symm.trans h₁)
  obtain ⟨s₂, h₂, -, -, -, hcur⟩ := h.count hp hf
  obtain rfl := Option.some.inj (hs.symm.trans h₂)
  exact ⟨h.relink hsame hc (hl ▸ h.shape) h.member, hsame, hc, hcur⟩

/-- A clock interrupt counts, and at the end of a time slice calls `schedule`. -/
theorem doIntrClock_counts {s s' : Sched} {cpl : Int} {cur : ProcStruct} (h : Ok s)
    (hcur : s.proc s.procCurrent = some cur) (hs : s.doIntrClock cpl = some s') :
    ∃ s₂, OkWith s₂ s.ready ∧ Same s s₂ ∧ s₂.procCurrent = s.procCurrent ∧
      if cpl ≠ 0 ∧ cur.counter ≤ 1 then s₂.schedule = some s' else s' = s₂ := by
  have h₀ : OkWith { s with jiffies := s.jiffies + 1 } s.ready :=
    ⟨h.table, h.idle, h.current, h.shape, h.member⟩
  unfold doIntrClock at hs
  obtain ⟨s₁, h₁, hs⟩ := Option.bind_eq_some_iff.mp hs
  obtain ⟨hok₁, hsame₁, hc₁, hcur₁⟩ := h₀.modify_current hcur (by split_ifs <;> rfl) h₁
  have hsame₁ : Same s s₁ := hsame₁
  have hcounter : (if cpl ≠ 0 then { cur with utime := cur.utime + 1, counter := cur.counter - 1 }
      else { cur with stime := cur.stime + 1, counter := cur.counter - 1 } : ProcStruct).counter
      = cur.counter - 1 := by
    split_ifs <;> rfl
  rw [hcur₁, Option.bind_some, hcounter] at hs
  split at hs
  · obtain rfl := Option.some.inj hs
    exact ⟨_, hok₁, hsame₁, hc₁, by rw [if_neg (by omega)]⟩
  -- the time slice is used up
  obtain ⟨s₂, h₂, hs⟩ := Option.bind_eq_some_iff.mp hs
  obtain ⟨hok₂, hsame₂, hc₂, -⟩ := hok₁.modify_current hcur₁ rfl h₂
  refine ⟨s₂, hok₂, hsame₁.trans hsame₂, hc₂.trans hc₁, ?_⟩
  split at hs
  · obtain rfl := Option.some.inj hs
    rw [if_neg (by tauto)]
  · rwa [if_pos ⟨‹_›, by omega⟩]

end Mks.Sched

namespace Mks.Kernel

open Sched Rotation

variable {L : Layout} {k k' : Kernel} {t : ReadyQueue} {x : Int × List Int}
  {tr : List (Kernel × (Op × Int) × Kernel)}

/-- The operations that end with a call of `schedule`. -/
def callsSchedule (t : Kernel × (Op × Int) × Kernel) : Bool :=
  match t.2.1 with
  | (.msg _ _ _, r) | (.hardware _ _, r) => r = 1
  | (.clock cpl, _) => cpl ≠ 0 &&
      (t.1.sched.proc t.1.sched.procCurrent).any fun cur => cur.counter ≤ 1
  | (.read _, _) | (.write _ _, _) | (.kernelStore _ _, _) => false

theorem callsSchedule_iff {e : Op × Int} :
    callsSchedule (k, e, k') = true ↔ CallsSchedule (k, .op e.1 e.2, k') := by
  obtain ⟨op, r⟩ := e
  cases op with
  | msg f ebx ecx => simp [callsSchedule, CallsSchedule]
  | hardware dest msg => simp [callsSchedule, CallsSchedule]
  | clock cpl =>
      simp only [callsSchedule, CallsSchedule, Bool.and_eq_true, decide_eq_true_eq,
        Option.any_eq_true]
  | read a => simp [callsSchedule, CallsSchedule]
  | write a v => simp [callsSchedule, CallsSchedule]
  | kernelStore a v => simp [callsSchedule, CallsSchedule]

/-- Nobody of a type up to that of `t` falls asleep or is woken in the run. -/
def SteadyRun (t : ReadyQueue) (tr : List (Kernel × (Op × Int) × Kernel)) : Prop :=
  ∀ e ∈ tr, Steady t e.1.sched e.2.2.sched

/-! ## One operation -/

/-- What the message functions do to a line. -/
theorem Effect.line {s s' : Sched} {r : Int} (he : Effect s r s') (h : s.Ok) (hl : s.Line t x)
    (hst : Steady t s s') : s'.Line t (if r = 1 then turn x else x) := by
  cases he with
  | none => exact hl
  | schedule hs => exact hl.schedule h hs
  | @wake p s₁ _ h₁ hs =>
      obtain ⟨hok, hc⟩ := setState_spec h h₁ (.inl rfl)
      obtain ⟨_, _, hs', hsame, -, -⟩ := schedule_spec hok.ok
      obtain rfl := Option.some.inj (hs.symm.trans hs')
      -- `schedule` changes no status, so nothing of interest happened before it
      have hst₁ : Steady t s s₁ := hst.trans hsame.symm.steady
      exact (hl.quiet hok hst₁ hc).schedule hok.ok hs
  | @sleep s₁ _ h0 h₁ hs =>
      exfalso
      obtain ⟨hok, hc⟩ := setState_spec h h₁ (.inr ⟨rfl, h0⟩)
      obtain ⟨_, _, hs', hsame, -, -⟩ := schedule_spec hok.ok
      obtain rfl := Option.some.inj (hs.symm.trans hs')
      have hst₁ : Steady t s s₁ := hst.trans hsame.symm.steady
      obtain ⟨pr, hp, hr, ht⟩ := hl.runs
      obtain ⟨pr₁, hp₁, -, hr₁, -⟩ := hst₁.get hp ht.le
      obtain ⟨pr', hpr', hproc, -⟩ := setState_inv h₁
      rw [hproc, ← hl.current, Function.update_self] at hp₁
      obtain rfl := Option.some.inj hp₁
      exact absurd (hr₁.trans hr) (by decide : SLEEPING ≠ RUNNING)

/-- **One operation**: a turn if it calls `schedule`, and otherwise nothing. -/
theorem step_line {e : Op × Int} (h : Ok L k) (hl : k.sched.Line t x) (hs : Step L k e k')
    (hst : Steady t k.sched k'.sched) :
    k'.sched.Line t (if callsSchedule (k, e, k') then turn x else x) := by
  obtain ⟨op, r⟩ := e
  obtain ⟨n, hs⟩ := hs
  have hsched := h.queues.sched
  cases op with
  | msg f ebx ecx =>
      simp only [exec] at hs
      split_ifs at hs with h0
      simpa [callsSchedule] using (intrMsg_effect hsched h0 hs).line hsched hl hst
  | hardware dest msg =>
      simpa [callsSchedule] using (smallSend_effect (.inl rfl) hs).line hsched hl hst
  | clock cpl =>
      obtain ⟨s', hs', he⟩ := Option.map_eq_some_iff.mp hs
      obtain ⟨-, rfl⟩ := Prod.mk.injEq .. ▸ he
      obtain ⟨cur, hcur⟩ := hsched.current
      obtain ⟨s₂, hok₂, hsame, hc, hcase⟩ := doIntrClock_counts hsched hcur hs'
      have hl₂ : s₂.Line t x := hl.quiet hok₂ hsame.steady hc
      simp only [callsSchedule, hcur, Option.any_some]
      split_ifs at hcase with hend
      · simp only [hend, ne_eq, not_false_eq_true, decide_true, Bool.and_self, if_true]
        exact hl₂.schedule hok₂.ok hcase
      · subst hcase
        rw [if_neg (by simpa using hend)]
        exact hl₂
  | read | write | kernelStore =>
      obtain ⟨mem, rfl⟩ := exec_access rfl hs
      exact hl

/-! ## The current process -/

theorem Effect.same {s s' : Sched} {r : Int} (he : Effect s r s') (hr : r ≠ 1) : s' = s := by
  cases he with
  | none => rfl
  | schedule _ | wake _ _ | sleep _ _ _ => contradiction

/-- Between two calls of `schedule` only counters change. -/
theorem step_same {e : Op × Int} (h : Ok L k) (hs : Step L k e k')
    (hno : ¬ CallsSchedule (k, .op e.1 e.2, k')) :
    Same k.sched k'.sched ∧ k'.sched.procCurrent = k.sched.procCurrent := by
  have hrefl : Same k.sched k.sched := fun _ => rfl
  obtain ⟨op, r⟩ := e
  obtain ⟨n, hs⟩ := hs
  have hsched := h.queues.sched
  cases op with
  | msg f ebx ecx =>
      simp only [exec] at hs
      split_ifs at hs with h0
      rw [(intrMsg_effect hsched h0 hs).same hno]
      exact ⟨hrefl, rfl⟩
  | hardware dest msg =>
      rw [(smallSend_effect (.inl rfl) hs).same hno]
      exact ⟨hrefl, rfl⟩
  | clock cpl =>
      obtain ⟨s', hs', he⟩ := Option.map_eq_some_iff.mp hs
      obtain ⟨-, rfl⟩ := Prod.mk.injEq .. ▸ he
      obtain ⟨cur, hcur⟩ := hsched.current
      obtain ⟨s₂, -, hsame, hc, hcase⟩ := doIntrClock_counts hsched hcur hs'
      rw [if_neg fun hend => hno ⟨hend.1, cur, hcur, hend.2⟩] at hcase
      obtain rfl := hcase
      exact ⟨hsame, hc⟩
  | read | write | kernelStore =>
      obtain ⟨mem, rfl⟩ := exec_access rfl hs
      exact ⟨hrefl, rfl⟩

/-- In every run the current process is the idle process or one of the highest priority. -/
theorem run_highest {k₀ : Kernel} (h₀ : Start k₀) (hr : Run (Step L) k₀ tr k) :
    k.sched.procCurrent = PROC_IDLE_NR ∨ HighestRuns k.sched := by
  have hinv : Ok L k ∧ (k.sched.procCurrent = PROC_IDLE_NR ∨ HighestRuns k.sched) := by
    refine hr.invariant (I := fun k => Ok L k ∧ (k.sched.procCurrent = PROC_IDLE_NR ∨
      HighestRuns k.sched)) ⟨h₀.ok, .inl h₀.sched.current⟩ ?_
    rintro k₁ e k₂ ⟨hok, hk⟩ hs
    refine ⟨(step_cases hok hs).1, ?_⟩
    by_cases hcall : CallsSchedule (k₁, .op e.1 e.2, k₂)
    · exact .inr ((driven_highest (e := .op e.1 e.2) hok.queues.sched hs).2 hcall)
    · obtain ⟨hsame, hc⟩ := step_same hok hs hcall
      rw [hc]
      exact hk.imp_right fun hm => hm.same hsame hc
  exact hinv.2

theorem run_foremost {k₀ : Kernel} (h₀ : Start k₀) (hr : Run (Step L) k₀ tr k)
    (h0 : k.sched.procCurrent ≠ PROC_IDLE_NR) {cur : ProcStruct}
    (hcur : k.sched.proc k.sched.procCurrent = some cur) (ht : cur.procType = t.type) :
    k.sched.Foremost t :=
  ((run_highest h₀ hr).resolve_left h0).foremost h0 hcur ht

/-! ## A run -/

theorem run_line (h : Ok L k) (hl : k.sched.Line t x) (hr : Run (Step L) k tr k')
    (hst : SteadyRun t tr) :
    Ok L k' ∧ k'.sched.Line t (turn^[tr.countP callsSchedule] x) := by
  induction hr with
  | nil => exact ⟨h, hl⟩
  | @snoc tr k₁ k₂ e hr hs ih =>
      obtain ⟨hok, hl₁⟩ := ih fun e he => hst e (by simp [he])
      refine ⟨(step_cases hok hs).1, ?_⟩
      have hl₂ := step_line hok hl₁ hs (hst (k₁, e, k₂) (by simp))
      rw [List.countP_append, List.countP_singleton]
      split_ifs at hl₂ ⊢ with hc
      · rwa [Function.iterate_succ_apply']
      · exact hl₂

/-- Everybody who has the turn after some calls of `schedule` has been current. -/
theorem run_visits (h : Ok L k) (hl : k.sched.Line t x) (hr : Run (Step L) k tr k')
    (hst : SteadyRun t tr) {n : Nat} (hn : n ≤ tr.countP callsSchedule) :
    ∃ m ≤ tr.length, (stateAt tr k' m).sched.procCurrent = (turn^[n] x).1 := by
  induction hr with
  | nil =>
      obtain rfl : n = 0 := by simpa using hn
      exact ⟨0, le_rfl, hl.current⟩
  | @snoc tr k₁ k₂ e hr hs ih =>
      have hst₁ : SteadyRun t tr := fun e he => hst e (by simp [he])
      by_cases hle : n ≤ tr.countP callsSchedule
      · obtain ⟨m, hm, hcur⟩ := ih hst₁ hle
        refine ⟨m, by simp; omega, ?_⟩
        rw [stateAt_snoc hm]
        exact hcur
      · -- the last call of the run is the `n`-th one
        have hall : n = (tr ++ [(k₁, e, k₂)]).countP callsSchedule := by
          rw [List.countP_append, List.countP_singleton] at hn ⊢
          split_ifs at hn ⊢ <;> omega
        refine ⟨(tr ++ [(k₁, e, k₂)]).length, le_rfl, ?_⟩
        rw [stateAt_last le_rfl, hall]
        exact (run_line h hl (hr.snoc hs) hst).2.current

/-- The first process that waits is a rival of the current one. -/
theorem rival_of_line {s : Sched} {c b : Int} {l : List Int} (h : s.Ok)
    (hl : s.Line t (c, b :: l)) : s.Rival b := by
  have hb : b ∈ joined s s.ready t := by rw [hl.queue]; simp
  obtain ⟨hne, pr, ⟨hpos, hp, hr⟩, ht⟩ := (mem_joined_iff h).mp hb
  obtain ⟨cur, hcur, -, htc⟩ := hl.runs
  rw [← hl.current] at hcur
  refine ⟨hpos, hne, ?_, t.type, t.type, ?_, ?_, le_rfl⟩
  · rw [stateOf, hp, Option.map_some, hr]
  · rw [Sched.typeOf, hp, Option.map_some, ht]
  · rw [Sched.typeOf, hcur, Option.map_some, htc]

theorem sliceLeft_le (h : k.sched.CountersLe) : k.sliceLeft ≤ COUNTER := by
  unfold sliceLeft
  cases hp : k.sched.proc k.sched.procCurrent with
  | none => decide
  | some pr => exact max_le (h _ pr hp) (by decide)

/-- Every call of `schedule` allows for one more time slice. -/
theorem run_ticks (h : Ok L k) (hcl : k.sched.CountersLe) (hl : k.sched.Line t x)
    (hne : x.2 ≠ []) (hr : Run (Step L) k tr k') (hst : SteadyRun t tr) :
    k'.sched.CountersLe ∧ (tr.countP userTick : Int) + k'.sliceLeft
      ≤ k.sliceLeft + COUNTER * tr.countP callsSchedule := by
  induction hr with
  | nil => exact ⟨hcl, by simp⟩
  | @snoc tr k₁ k₂ e hr hs ih =>
      have hst₁ : SteadyRun t tr := fun e he => hst e (by simp [he])
      obtain ⟨hcl₁, hle⟩ := ih hst₁
      obtain ⟨hok₁, hl₁⟩ := run_line h hl hr hst₁
      have hcl₂ : k₂.sched.CountersLe := by
        obtain ⟨w, hw⟩ := step_accesses hok₁.queues.sched hs
        exact (hw.invariant ⟨hok₁.queues.sched, hcl₁⟩ fun h ha => ha.countersLe h).2
      refine ⟨hcl₂, ?_⟩
      -- somebody waits all the time
      generalize hx₁ : turn^[tr.countP callsSchedule] x = x₁ at hl₁
      have hlen : x₁.2.length = x.2.length := by
        rw [← hx₁]
        exact length_iterate_turn x _
      obtain ⟨c, l⟩ := x₁
      cases l with
      | nil => exact absurd (List.length_eq_zero_iff.mp hlen.symm) hne
      | cons b l =>
          have hl₂ := step_line hok₁ hl₁ hs (hst (k₁, e, k₂) (by simp))
          have hslice := step_slice hok₁ (hl₁.current ▸ hl₁.pos) (rival_of_line
            hok₁.queues.sched hl₁) hs
          rw [← callsSchedule_iff] at hslice
          have hleft : 1 ≤ k₁.sliceLeft := le_max_right _ _
          have hfull := sliceLeft_le hcl₂
          simp only [List.countP_append, List.countP_singleton, Nat.cast_add]
          by_cases hc : callsSchedule (k₁, e, k₂) = true
          · rw [if_pos hc, Nat.cast_one, mul_add, mul_one]
            split <;> push_cast <;> omega
          · rw [if_neg hc] at hl₂ ⊢
            have hcur : k₂.sched.procCurrent = k₁.sched.procCurrent :=
              hl₂.current.trans hl₁.current.symm
            have hstep := (hslice.resolve_left (not_not.mpr hcur)).2
            rw [Nat.cast_zero, add_zero]
            split_ifs at hstep ⊢ <;> push_cast <;> omega

/-- Clock interrupts put nobody to sleep and wake nobody. -/
theorem clock_steady {cpl r : Int} (h : Ok L k) (hs : Step L k (.clock cpl, r) k') :
    Steady t k.sched k'.sched := by
  obtain ⟨n, hs⟩ := hs
  obtain ⟨s', hs', he⟩ := Option.map_eq_some_iff.mp hs
  obtain ⟨-, rfl⟩ := Prod.mk.injEq .. ▸ he
  obtain ⟨cur, hcur⟩ := h.queues.sched.current
  obtain ⟨s₂, hok₂, hsame, -, hcase⟩ := doIntrClock_counts h.queues.sched hcur hs'
  split_ifs at hcase
  · obtain ⟨_, _, hs₁, hsame', -, -⟩ := schedule_spec hok₂
    obtain rfl := Option.some.inj (hcase.symm.trans hs₁)
    exact (hsame.trans hsame').steady
  · subst hcase
    exact hsame.steady

theorem clocks_steady (h : Ok L k) (hr : Run (Step L) k tr k')
    (hc : ∀ e ∈ tr, ∃ cpl, e.2.1.1 = .clock cpl) : SteadyRun t tr := by
  have hall : Ok L k' ∧ SteadyRun t tr := by
    induction hr with
    | nil => exact ⟨h, by simp [SteadyRun]⟩
    | @snoc tr k₁ k₂ e hr hs ih =>
        obtain ⟨hok, hst⟩ := ih fun e he => hc e (by simp [he])
        refine ⟨(step_cases hok hs).1, fun e' he' => ?_⟩
        rcases List.mem_append.mp he' with he' | he'
        · exact hst e' he'
        · obtain rfl := List.mem_singleton.mp he'
          obtain ⟨op, r⟩ := e
          obtain ⟨cpl, rfl⟩ : ∃ cpl, op = .clock cpl := hc (k₁, (op, r), k₂) (by simp)
          exact clock_steady hok hs
  exact hall.2

/-! ## The cycle -/

/-- **The order of service.** When a process other than the idle one is current, and as long as no
process of its type, or of a smaller type, falls asleep or is woken, the calls of `schedule` pass
the processor around in a fixed cycle: the current process, the processes at the even places of its
ready queue, and, if their number is odd, then those at the odd places. -/
theorem served_in_cycle {k₀ : Kernel} {tr₀ : List (Kernel × (Op × Int) × Kernel)} {s₁ : Sched}
    {cur : ProcStruct} (h₀ : Start k₀) (hr₀ : Run (Step L) k₀ tr₀ k)
    (h0 : k.sched.procCurrent ≠ PROC_IDLE_NR)
    (hcur : k.sched.proc k.sched.procCurrent = some cur) (ht : cur.procType = t.type)
    (hq : k.sched.addRunningProc = some s₁) (hr : Run (Step L) k tr k') (hst : SteadyRun t tr) :
    (order (k.sched.procCurrent, s₁.ready t))[tr.countP callsSchedule %
      (order (k.sched.procCurrent, s₁.ready t)).length]? = some k'.sched.procCurrent := by
  have hok := run_ok h₀ hr₀
  have hf := run_foremost h₀ hr₀ h0 hcur ht
  obtain ⟨-, hl⟩ := run_line hok (hf.line hok.queues.sched hq) hr hst
  rw [iterate_fst, hl.current]

/-- The runs with clock interrupts only of the witnesses: after the first interrupt process 1 is
current and the others of `ready` wait. -/
theorem clocks_run {k₀ : Kernel} (h₀ : Start k₀) (n : Nat) (ready : List Int)
    (hex : ((execs 0 L [.clock 3] k₀).bind fun r₀ => r₀.2.sched.addRunningProc.bind fun s₁ =>
      (execs 0 L (List.replicate n (.clock 3)) r₀.2).map fun r =>
        decide (r₀.2.sched.procCurrent = 1 ∧
          r₀.2.sched.proc 1 = some ⟨3, 0, 10, 1, 0, 0⟩ ∧ s₁.ready .user = ready ∧
          (r.1.map fun e => e.2.1.1) = List.replicate n (.clock 3))) = some true) :
    ∃ tr₀ k s₁ tr k', Run (Step L) k₀ tr₀ k ∧ k.sched.procCurrent = 1 ∧
      k.sched.proc k.sched.procCurrent = some ⟨3, 0, 10, 1, 0, 0⟩ ∧
      k.sched.addRunningProc = some s₁ ∧ s₁.ready .user = ready ∧
      Run (Step L) k tr k' ∧ SteadyRun .user tr ∧
      (tr.map fun e => e.2.1.1) = List.replicate n (.clock 3) := by
  obtain ⟨⟨tr₀, k⟩, hk, he⟩ := Option.bind_eq_some_iff.mp hex
  obtain ⟨s₁, hq, he⟩ := Option.bind_eq_some_iff.mp he
  obtain ⟨⟨tr, k'⟩, hk', he⟩ := Option.map_eq_some_iff.mp he
  obtain ⟨hcur, hp, hready, hops⟩ := of_decide_eq_true he
  have hr₀ := execs_run hk
  have hr := execs_run hk'
  exact ⟨tr₀, k, s₁, tr, k', hr₀, hcur, hcur ▸ hp, hq, hready, hr,
    clocks_steady (run_ok h₀ hr₀) hr fun e he =>
      ⟨3, List.eq_of_mem_replicate (hops ▸ List.mem_map_of_mem he)⟩, hops⟩

/-- Four processes: after the fifth call of `schedule` the second of the cycle runs. -/
theorem served_in_cycle_users : ∃ tr₀ k s₁ tr k', Run (Step (stackLayout 0x18000)) users tr₀ k ∧
    k.sched.addRunningProc = some s₁ ∧ Run (Step (stackLayout 0x18000)) k tr k' ∧
    order (k.sched.procCurrent, s₁.ready .user) = [1, 2, 4, 3] ∧
    [1, 2, 4, 3][tr.countP callsSchedule % 4]? = some k'.sched.procCurrent := by
  obtain ⟨tr₀, k, s₁, tr, k', hr₀, hcur, hp, hq, hready, hr, hst, -⟩ :=
    clocks_run users_start.toStart 50 [2, 3, 4] (L := stackLayout 0x18000) (by decide +kernel)
  have horder : order (k.sched.procCurrent, s₁.ready .user) = [1, 2, 4, 3] := by
    rw [hcur, hready]
    rfl
  have h := served_in_cycle users_start.toStart hr₀ (by rw [hcur]; decide) hp (t := .user) rfl hq hr
    hst
  rw [horder] at h
  exact ⟨tr₀, k, s₁, tr, k', hr₀, hq, hr, horder, h⟩

/-- **Starvation.** With an even number of processes waiting, those at the odd places of the queue
never get the processor, although they are ready all the time and of the priority of those that
do. -/
theorem starved {k₀ : Kernel} {tr₀ : List (Kernel × (Op × Int) × Kernel)} {s₁ : Sched} {b : Int}
    {cur : ProcStruct} (h₀ : Start k₀) (hr₀ : Run (Step L) k₀ tr₀ k)
    (h0 : k.sched.procCurrent ≠ PROC_IDLE_NR)
    (hcur : k.sched.proc k.sched.procCurrent = some cur) (ht : cur.procType = t.type)
    (hq : k.sched.addRunningProc = some s₁) (heven : (s₁.ready t).length % 2 = 0)
    (hb : b ∈ odds (s₁.ready t)) (hr : Run (Step L) k tr k') (hst : SteadyRun t tr) :
    k'.sched.procCurrent ≠ b := by
  have hok := run_ok h₀ hr₀
  have hline := (run_foremost h₀ hr₀ h0 hcur ht).line hok.queues.sched hq
  obtain ⟨-, hl⟩ := run_line hok hline hr hst
  have hnd : (k.sched.procCurrent :: s₁.ready t).Nodup := by
    have hqueue : joined k.sched k.sched.ready t = s₁.ready t := hline.queue
    refine List.nodup_cons.mpr ⟨fun hi => ?_, hqueue ▸ joined_nodup hok.queues.sched t⟩
    rw [← hqueue, mem_joined_iff hok.queues.sched] at hi
    exact hi.1 rfl
  intro hb'
  have hmem := List.mem_of_getElem? (iterate_fst (k.sched.procCurrent, s₁.ready t)
    (tr.countP callsSchedule))
  rw [← hl.current, hb'] at hmem
  exact not_mem_order hnd heven hb hmem

/-- Three user processes. -/
def threeUsers : Sched :=
  { procInit with
    proc := fun i =>
      if 0 ≤ i ∧ i ≤ 3 then
        some { procType := 3, state := 0, counter := 0, pid := i, utime := 0, stime := 0 }
      else none }

theorem threeUsers_init : Sched.Init threeUsers where
  table i pr hp := by
    simp only [threeUsers] at hp
    split_ifs at hp with hi
    obtain rfl := Option.some.inj hp
    exact ⟨hi.1, lt_of_le_of_lt hi.2 (by decide), rfl, rfl, .user, rfl⟩
  idle := ⟨_, rfl, rfl⟩
  current := rfl
  head _ := rfl
  tail _ := rfl

/-- Of three processes the third one does not run in a hundred interrupts. -/
theorem starved_users : ∃ tr₀ k tr k',
    Run (Step (stackLayout 0x18000)) ({ start blank with sched := threeUsers } : Kernel).msgInit
      tr₀ k ∧ Run (Step (stackLayout 0x18000)) k tr k' ∧ tr.length = 100 ∧
    k'.sched.procCurrent ≠ 3 := by
  have h₀ : Start ({ start blank with sched := threeUsers } : Kernel).msgInit :=
    msgInit_start threeUsers_init
  obtain ⟨tr₀, k, s₁, tr, k', hr₀, hcur, hp, hq, hready, hr, hst, hops⟩ :=
    clocks_run h₀ 100 [2, 3] (L := stackLayout 0x18000) (by decide +kernel)
  have hlen : tr.length = 100 := by simpa using congrArg List.length hops
  exact ⟨tr₀, k, tr, k', hr₀, hr, hlen,
    starved h₀ hr₀ (by rw [hcur]; decide) hp (t := .user) rfl hq (by rw [hready]; rfl)
      (by rw [hready]; simp [odds]) hr hst⟩

/-- **No starvation.** With an odd number of processes waiting, each of them has had the processor
after `COUNTER` clock interrupts in user mode for each of them. -/
theorem served_within {k₀ : Kernel} {tr₀ : List (Kernel × (Op × Int) × Kernel)} {s₁ : Sched}
    {cur : ProcStruct} {b : Int} (h₀ : FreshStart k₀) (hr₀ : Run (Step L) k₀ tr₀ k)
    (h0 : k.sched.procCurrent ≠ PROC_IDLE_NR)
    (hcur : k.sched.proc k.sched.procCurrent = some cur) (ht : cur.procType = t.type)
    (hq : k.sched.addRunningProc = some s₁) (hodd : (s₁.ready t).length % 2 = 1)
    (hb : b ∈ s₁.ready t) (hr : Run (Step L) k tr k') (hst : SteadyRun t tr)
    (hticks : COUNTER * (s₁.ready t).length ≤ tr.countP userTick) :
    ∃ m ≤ tr.length, (stateAt tr k' m).sched.procCurrent = b := by
  have hok := run_ok h₀.toStart hr₀
  have hline := (run_foremost h₀.toStart hr₀ h0 hcur ht).line hok.queues.sched hq
  have hperm := order_perm (x := (k.sched.procCurrent, s₁.ready t)) hodd
  obtain ⟨n, hn, hturn⟩ := exists_turn (hperm.mem_iff.mpr (List.mem_cons_of_mem _ hb))
  have hcl := run_countersLe h₀ hr₀
  have hle := (run_ticks hok hcl hline (List.ne_nil_of_mem hb) hr hst).2
  have hfull := sliceLeft_le hcl
  have hleft : 1 ≤ k'.sliceLeft := le_max_right _ _
  have hn : n < (s₁.ready t).length + 1 := lt_of_lt_of_eq hn hperm.length_eq
  have hcalls : n ≤ tr.countP callsSchedule := by
    simp only [COUNTER] at hticks hle hfull
    omega
  rw [← hturn]
  exact run_visits hok hline hr hst hcalls

/-- Four processes: the last one has the processor within thirty interrupts. -/
theorem served_within_users : ∃ tr₀ k tr k',
    Run (Step (stackLayout 0x18000)) users tr₀ k ∧ Run (Step (stackLayout 0x18000)) k tr k' ∧
    tr.length = 30 ∧ ∃ m ≤ tr.length, (stateAt tr k' m).sched.procCurrent = 3 := by
  obtain ⟨tr₀, k, s₁, tr, k', hr₀, hcur, hp, hq, hready, hr, hst, hops⟩ :=
    clocks_run users_start.toStart 30 [2, 3, 4] (L := stackLayout 0x18000) (by decide +kernel)
  have hlen : tr.length = 30 := by simpa using congrArg List.length hops
  have hticks : tr.countP userTick = 30 := by
    rw [← hlen, List.countP_eq_length]
    intro e he
    have hop : e.2.1.1 = .clock 3 := List.eq_of_mem_replicate (hops ▸ List.mem_map_of_mem he)
    simp [userTick, hop]
  exact ⟨tr₀, k, tr, k', hr₀, hr, hlen, served_within users_start hr₀
    (by rw [hcur]; decide) hp (t := .user) rfl hq (by rw [hready]; rfl) (by rw [hready]; simp) hr hst
    (by rw [hready, hticks]; decide)⟩

end Mks.Kernel
