import Mks.Process.Priority

set_option autoImplicit false

/-! # Round robin

The order in which ready processes run. The scheduler is driven by calls of `schedule`, by the
current process going to sleep and by sleeping processes being woken (`SchedStep`).

A preempted process is put back with `requeue`, which also advances the head of its queue: when
two other processes are ready, the first one of the queue is dropped (`LosesHead`). Away from
that case the queues are first in, first out (`fair_iff`), and no process overtakes another one
ahead of it in its queue (`not_overtaken`).
-/

namespace Mks.Sched

open Linked

/-! ## The driven scheduler -/

inductive SchedEvent
  | schedule
  | sleep
  | wake (p : Int)
  deriving DecidableEq

/-- One event. Only the current process goes to sleep, and never the idle process. -/
def SchedStep (s : Sched) (e : SchedEvent) (s' : Sched) : Prop :=
  match e with
  | .schedule => s.schedule = some s'
  | .sleep => s.procCurrent ≠ PROC_IDLE_NR ∧ s.setState s.procCurrent SLEEPING = some s'
  | .wake p => s.setState p RUNNING = some s'

/-- The state after start-up: some processes, all runnable, the idle process current, and empty
queues. -/
structure Init (s : Sched) : Prop where
  table : ∀ i pr, s.proc i = some pr →
    0 ≤ i ∧ i < NR_PROCS ∧ pr.pid = i ∧ pr.state = RUNNING ∧ ∃ q : ReadyQueue, pr.procType = q.type
  idle : ∃ pr, s.proc PROC_IDLE_NR = some pr ∧ pr.procType = 3
  current : s.procCurrent = PROC_IDLE_NR
  head : ∀ q, s.links.head q = none
  tail : ∀ q, s.links.tail q = none

theorem procInit_init : Init procInit where
  table i pr hp := by
    simp only [procInit, initProcs] at hp
    split_ifs at hp with hi h2 <;> obtain rfl := Option.some.inj hp
    · exact ⟨hi.1, lt_trans hi.2 (by decide), rfl, rfl, .task, rfl⟩
    · exact ⟨hi.1, lt_trans hi.2 (by decide), rfl, rfl, .user, rfl⟩
  idle := ⟨_, rfl, rfl⟩
  current := rfl
  head _ := rfl
  tail _ := rfl

theorem Init.ok {s : Sched} (h : Init s) : Ok s := by
  have hempty : OkWith s fun _ => [] := by
    refine ⟨fun i pr hp => ?_, ?_, ?_, ⟨fun q => ⟨h.head q, h.tail q⟩, by simp⟩, by simp⟩
    · obtain ⟨h0, h1, h2, -, h3⟩ := h.table i pr hp
      exact ⟨h0, h1, h2, h3⟩
    · obtain ⟨pr, hp, ht⟩ := h.idle
      exact ⟨pr, hp, (h.table _ pr hp).2.2.2.1, ht⟩
    · obtain ⟨pr, hp, -⟩ := h.idle
      exact ⟨pr, h.current ▸ hp⟩
  exact hempty.ok

theorem SchedStep.ok {s s' : Sched} {e : SchedEvent} (h : Ok s) (hs : SchedStep s e s') : Ok s' := by
  cases e with
  | schedule =>
      obtain ⟨s₁, ql', hs₁, -, hok, -⟩ := schedule_spec h
      obtain rfl := Option.some.inj (hs.symm.trans hs₁)
      exact hok.ok
  | sleep => exact (setState_spec h hs.2 (.inr ⟨rfl, hs.1⟩)).1.ok
  | wake p => exact (setState_spec h hs (.inl rfl)).1.ok

theorem reach_ok {s₀ s : Sched} (h₀ : Init s₀) (h : Reach SchedStep s₀ s) : Ok s :=
  h.invariant h₀.ok fun hok hs => hs.ok hok

/-! ## The lost head -/

/-- The running current process is preempted while two other processes are ready that may run
before it, one of them of its own type: `requeue` then drops a process from that queue. -/
def LosesHead (s : Sched) : Prop :=
  ∃ cur, s.proc s.procCurrent = some cur ∧ cur.state = RUNNING ∧ s.procCurrent ≠ PROC_IDLE_NR ∧
    ∃ i j pri prj, i ≠ j ∧ i ≠ s.procCurrent ∧ j ≠ s.procCurrent ∧ s.Runnable i pri ∧
      s.Runnable j prj ∧ pri.procType = cur.procType ∧ prj.procType ≤ cur.procType

/-- What round robin asks of one call of `schedule`: a process that is in a ready queue after
`add_running_proc` leaves it only by being selected, and a preempted process is put behind all
processes of its queue. -/
structure Fair (s s' : Sched) : Prop where
  leaves : ∀ s₁, s.addRunningProc = some s₁ → ∀ q, ∀ i ∈ s₁.ready q, i ∉ s'.ready q →
    i = s'.procCurrent
  behind : ∀ s₁, s.addRunningProc = some s₁ → ∀ cur q, s.proc s.procCurrent = some cur →
    cur.state = RUNNING → s.procCurrent ≠ PROC_IDLE_NR → cur.procType = ReadyQueue.type q →
    s'.procCurrent ≠ s.procCurrent →
    s'.ready q = (s₁.ready q).erase s'.procCurrent ++ [s.procCurrent]

theorem joined_nodup {s : Sched} {ql : ReadyQueue → List Int} (h : OkWith s ql) (q : ReadyQueue) :
    (joined s ql q).Nodup := by
  obtain ⟨s₁, -, -, -, hok⟩ := addRunningProc_spec h
  exact (hok.shape.queue q).nodup

/-- Removing the selected process from its queue removes it from all queues. -/
theorem mem_rest {s : Sched} {ql : ReadyQueue → List Int} (h : OkWith s ql) {q q' : ReadyQueue}
    {n i : Int} {rest : List Int} (hq : joined s ql q = n :: rest) :
    i ∈ Function.update (joined s ql) q rest q' ↔ i ∈ joined s ql q' ∧ i ≠ n := by
  have hnd := joined_nodup h q
  rw [hq] at hnd
  by_cases hqq : q' = q
  · subst hqq
    rw [Function.update_self, hq, List.mem_cons]
    constructor
    · exact fun hi => ⟨.inr hi, fun e => (List.nodup_cons.mp hnd).1 (e ▸ hi)⟩
    · exact fun hi => hi.1.resolve_left hi.2
  · rw [Function.update_of_ne hqq]
    refine ⟨fun hi => ⟨hi, fun e => hqq ?_⟩, fun hi => hi.1⟩
    have hn : n ∈ joined s ql q := by rw [hq]; simp
    exact waits_type ((mem_joined h).mp (e ▸ hi)) ((mem_joined h).mp hn)

/-- In terms of the queues: the queue the preempted process goes to is not empty. -/
theorem losesHead_iff {s : Sched} (h : Ok s) {q t : ReadyQueue} {n : Int} {rest : List Int}
    {cur : ProcStruct} (hp : s.proc s.procCurrent = some cur) (hr : cur.state = RUNNING)
    (ht : cur.procType = t.type) (h0 : s.procCurrent ≠ 0)
    (hc : choice (joined s s.ready) s.flag = some q) (hq : joined s s.ready q = n :: rest) :
    s.LosesHead ↔ Function.update (joined s s.ready) q rest t ≠ [] := by
  have hn : n ∈ joined s s.ready q := by rw [hq]; simp
  obtain ⟨hnc, prn, hrn, htn⟩ := (mem_joined_iff h).mp hn
  constructor
  · rintro ⟨cur', hp', -, -, i, j, pri, prj, hij, hic, hjc, hri, hrj, hti, htj⟩ hnil
    obtain rfl := Option.some.inj (hp.symm.trans hp')
    have hi : i ∈ joined s s.ready t := (mem_joined_iff h).mpr ⟨hic, pri, hri, hti.trans ht⟩
    -- `i` waits in `t`, so it must be the process selected, and `t` the queue picked from
    have hin : i = n := by
      by_contra hne
      have hrest : i ∈ Function.update (joined s s.ready) q rest t :=
        (mem_rest h hq).mpr ⟨hi, hne⟩
      rw [hnil] at hrest
      cases hrest
    subst hin
    have hqt : q = t := waits_type ((mem_joined h).mp hn) ((mem_joined h).mp hi)
    subst hqt
    obtain ⟨-, -, -, qj, hqj⟩ := h.table j prj hrj.2.1
    have hj : j ∈ joined s s.ready qj := (mem_joined_iff h).mpr ⟨hjc, prj, hrj, hqj⟩
    have hmin := choice_min hc (List.ne_nil_of_mem hj)
    have hqq : qj = q := by
      have : qj.type = q.type := by omega
      cases qj <;> cases q <;> simp_all [ReadyQueue.type]
    subst hqq
    have := (mem_rest h hq).mpr ⟨hj, hij.symm⟩
    rw [hnil] at this
    cases this
  · intro hne
    obtain ⟨i, hi⟩ := List.exists_mem_of_ne_nil _ hne
    obtain ⟨hi, hin⟩ := (mem_rest h hq).mp hi
    obtain ⟨hic, pri, hri, hti⟩ := (mem_joined_iff h).mp hi
    have hle : q.type ≤ t.type := by
      have := ReadyQueue.type_cases t
      have := choice_le_flag hc (by rw [flag_of_runs hp hr]; omega)
      rwa [flag_of_runs hp hr, ht] at this
    exact ⟨cur, hp, hr, h0, i, n, pri, prn, hin, hic, hnc, hri, hrn, by omega, by omega⟩

/-- What is left of the queues when the selected process is taken out of its own. -/
theorem rest_eq_erase {s : Sched} {ql : ReadyQueue → List Int} (h : OkWith s ql) {q q' : ReadyQueue}
    {n : Int} {rest : List Int} (hq : joined s ql q = n :: rest) :
    Function.update (joined s ql) q rest q' = (joined s ql q').erase n := by
  by_cases hqq : q' = q
  · subst hqq
    rw [Function.update_self, hq, List.erase_cons_head]
  · rw [Function.update_of_ne hqq, List.erase_of_not_mem fun hn => hqq ?_]
    have hn' : n ∈ joined s ql q := by rw [hq]; simp
    exact waits_type ((mem_joined h).mp hn) ((mem_joined h).mp hn')

/-- **Round robin, one call.** `schedule` returns, and it is fair exactly when it does not lose
the head of a queue. -/
theorem fair_iff {s : Sched} (h : Ok s) :
    ∃ s', s.schedule = some s' ∧ (Fair s s' ↔ ¬ s.LosesHead) := by
  obtain ⟨s', ql', hs', -, hok', hsch⟩ := schedule_spec h
  refine ⟨s', hs', ?_⟩
  obtain ⟨s₁, h₁, -, -, hok₁⟩ := addRunningProc_spec h
  have hready : ∀ s₂, s.addRunningProc = some s₂ → s₂.ready = joined s s.ready := by
    intro s₂ h₂
    obtain rfl := Option.some.inj (h₁.symm.trans h₂)
    exact hok₁.ready_eq
  have hready' : s'.ready = ql' := hok'.ready_eq
  cases hsch with
  | stay hr hc hcur =>
      constructor
      · rintro - ⟨cur, hp, hrun, -, i, -, pri, -, -, hic, -, hri, -, hti, -⟩
        obtain ⟨-, -, -, t, ht⟩ := h.table _ _ hp
        have hi : i ∈ joined s s.ready t := (mem_joined_iff h).mpr ⟨hic, pri, hri, hti.trans ht⟩
        have hlt := choice_none hc (List.ne_nil_of_mem hi)
        rw [flag_of_runs hp hrun] at hlt
        omega
      · refine fun _ => ⟨fun s₂ h₂ q i hi hi' => ?_, fun _ _ _ _ _ _ _ _ hne => absurd hcur hne⟩
        rw [hready s₂ h₂] at hi
        rw [hready'] at hi'
        exact absurd hi hi'
  | idle hr hc hcur =>
      constructor
      · rintro - ⟨cur, hp, hrun, -⟩
        exact hr ⟨cur, hp, hrun⟩
      · refine fun _ => ⟨fun s₂ h₂ q i hi hi' => ?_,
          fun _ _ cur _ hp hrun _ _ _ => absurd ⟨cur, hp, hrun⟩ hr⟩
        rw [hready s₂ h₂] at hi
        rw [hready'] at hi'
        exact absurd hi hi'
  | switch q n rest hr hc hq hcur =>
      constructor
      · rintro - ⟨cur, hp, hrun, h0, -⟩
        exact hr.elim (fun hr => hr ⟨cur, hp, hrun⟩) h0
      · refine fun _ => ⟨fun s₂ h₂ q' i hi hi' => ?_, fun _ _ cur _ hp hrun h0 _ _ =>
          hr.elim (fun hr => absurd ⟨cur, hp, hrun⟩ hr) fun e => absurd e h0⟩
        rw [hready s₂ h₂] at hi
        rw [hready', mem_rest h hq] at hi'
        rw [hcur]
        exact not_not.mp fun hne => hi' ⟨hi, hne⟩
  | preempt q n rest t cur hp hr ht h0 hc hq hcur =>
      have hloses := losesHead_iff h hp hr ht h0 hc hq
      have ht' : s'.ready t
          = (Function.update (joined s s.ready) q rest t).tail ++ [s.procCurrent] := by
        rw [hready', Function.update_self]
      rw [hloses, not_not]
      have hncur : n ≠ s.procCurrent :=
        ((mem_joined_iff (i := n) h).mp (by rw [hq]; simp)).1
      constructor
      · -- the list loses its first element besides the selected one
        intro hfair
        have hb := hfair.behind s₁ h₁ cur t hp hr h0 ht (by rw [hcur]; exact hncur)
        rw [ht', hcur, hready s₁ h₁, ← rest_eq_erase h hq] at hb
        have hlen := congrArg List.length (List.append_cancel_right hb)
        rw [List.length_tail] at hlen
        exact List.eq_nil_of_length_eq_zero (by omega)
      · intro hnil
        rw [hnil] at ht'
        refine ⟨fun s₂ h₂ q' i hi hi' => ?_, fun s₂ h₂ cur' q' hp' _ _ hq' _ => ?_⟩
        · rw [hready s₂ h₂] at hi
          rw [hcur]
          by_contra hne
          have hmem : i ∈ Function.update (joined s s.ready) q rest q' :=
            (mem_rest h hq).mpr ⟨hi, hne⟩
          by_cases hqt : q' = t
          · subst hqt
            rw [hnil] at hmem
            cases hmem
          · rw [hready', Function.update_of_ne hqt] at hi'
            exact hi' hmem
        · obtain rfl := Option.some.inj (hp.symm.trans hp')
          have hqt : q' = t := by
            have : q'.type = t.type := hq'.symm.trans ht
            cases q' <;> cases t <;> simp_all [ReadyQueue.type]
          subst hqt
          rw [ht', hcur, hready s₂ h₂, ← rest_eq_erase h hq, hnil]
          rfl

/-! ## No overtaking -/

/-- A transition in which `schedule` switches to process `r`. -/
def Selects (t : Sched × SchedEvent × Sched) (r : Int) : Prop :=
  t.2.1 = .schedule ∧ t.2.2.procCurrent = r ∧ t.1.procCurrent ≠ r

/-- Process `p` stands ahead of process `r` in queue `q`. -/
def Ahead (s : Sched) (q : ReadyQueue) (p r : Int) : Prop := [p, r].Sublist (s.ready q)

/-- `p` is selected before `r` leaves its place behind `p`. -/
theorem ahead_rest {s : Sched} {ql : ReadyQueue → List Int} (h : OkWith s ql) {q q' : ReadyQueue}
    {n p r : Int} {rest : List Int} (hq : joined s ql q = n :: rest)
    (hpr : [p, r].Sublist (joined s ql q')) :
    n = p ∨ [p, r].Sublist (Function.update (joined s ql) q rest q') ∧ n ≠ r := by
  by_cases hqq : q' = q
  · subst hqq
    have hnd := joined_nodup h q'
    rw [hq] at hpr hnd
    rw [Function.update_self]
    cases hpr with
    | cons _ hpr =>
        refine .inr ⟨hpr, fun e => (List.nodup_cons.mp hnd).1 ?_⟩
        exact e ▸ hpr.subset (by simp)
    | cons_cons _ hpr => exact .inl rfl
  · rw [Function.update_of_ne hqq]
    refine .inr ⟨hpr, fun e => hqq ?_⟩
    have hn : n ∈ joined s ql q := by rw [hq]; simp
    exact waits_type ((mem_joined h).mp (e ▸ hpr.subset (by simp))) ((mem_joined h).mp hn)

/-- One event that loses no head: `p` is selected, or stays ahead of `r`, which is not. -/
theorem SchedStep.ahead {s s' : Sched} {e : SchedEvent} (h : Ok s) (hs : SchedStep s e s')
    (hl : e = .schedule → ¬ s.LosesHead) {q : ReadyQueue} {p r : Int} (hpr : s.Ahead q p r) :
    Selects (s, e, s') p ∨ s'.Ahead q p r ∧ ¬ Selects (s, e, s') r := by
  have hpw := waits_iff.mp (h.member q p (hpr.subset (by simp)))
  have hrw := waits_iff.mp (h.member q r (hpr.subset (by simp)))
  cases e with
  | sleep =>
      have hok := (setState_spec h hs.2 (.inr ⟨rfl, hs.1⟩)).1
      exact .inr ⟨by unfold Ahead; rwa [hok.ready_eq], fun hsel => by cases hsel.1⟩
  | wake j =>
      have hok := (setState_spec h hs (.inl rfl)).1
      exact .inr ⟨by unfold Ahead; rwa [hok.ready_eq], fun hsel => by cases hsel.1⟩
  | schedule =>
      obtain ⟨s₁, ql', hs₁, -, hok', hsch⟩ := schedule_spec h
      obtain rfl := Option.some.inj (hs.symm.trans hs₁)
      have hjoin : [p, r].Sublist (joined s s.ready q) := hpr.trans (List.sublist_append_left _ _)
      unfold Ahead
      rw [hok'.ready_eq]
      cases hsch with
      | stay hr hc hcur => exact .inr ⟨hjoin, fun hsel => hsel.2.2 (hcur.symm.trans hsel.2.1)⟩
      | idle hr hc hcur => exact .inr ⟨hjoin, fun hsel => hrw.1 (hsel.2.1.symm.trans hcur)⟩
      | switch q₀ n rest hr hc hq hcur =>
          rcases ahead_rest h hq hjoin with rfl | ⟨hrest, hne⟩
          · exact .inl ⟨rfl, hcur, hpw.2.1.symm⟩
          · exact .inr ⟨hrest, fun hsel => hne (hcur.symm.trans hsel.2.1)⟩
      | preempt q₀ n rest t cur hp hr ht h0 hc hq hcur =>
          have hnil := not_not.mp fun hne => hl rfl ((losesHead_iff h hp hr ht h0 hc hq).mpr hne)
          rcases ahead_rest h hq hjoin with rfl | ⟨hrest, hne⟩
          · exact .inl ⟨rfl, hcur, hpw.2.1.symm⟩
          · refine .inr ⟨?_, fun hsel => hne (hcur.symm.trans hsel.2.1)⟩
            by_cases hqt : q = t
            · subst hqt
              rw [hnil] at hrest
              cases hrest
            · rwa [Function.update_of_ne hqt]

/-- Along a continuation without lost heads, `p` stays ahead of `r` until it is selected. -/
theorem ahead_until {s s' : Sched} {tr : List (Sched × SchedEvent × Sched)} (h : Ok s)
    (hr : Run SchedStep s tr s') (hl : ∀ t ∈ tr, t.2.1 = .schedule → ¬ t.1.LosesHead)
    {q : ReadyQueue} {p r : Int} (hpr : s.Ahead q p r) :
    (∃ t ∈ tr, Selects t p) ∨ s'.Ahead q p r := by
  induction hr with
  | nil => exact .inr hpr
  | @snoc tr s₁ s₂ e hr hs ih =>
      rcases ih fun t ht => hl t (by simp [ht]) with ⟨t, ht, hsel⟩ | hahead
      · exact .inl ⟨t, by simp [ht], hsel⟩
      · have hok : Ok s₁ := hr.invariant h fun hok hs => hs.ok hok
        rcases hs.ahead hok (hl (s₁, e, s₂) (by simp)) hahead with hsel | ⟨hahead, -⟩
        · exact .inl ⟨(s₁, e, s₂), by simp, hsel⟩
        · exact .inr hahead

/-- **Round robin.** From start-up, every call of `schedule` returns, and it is fair exactly when
it loses no head. In every continuation all of whose calls lose no head, a process `r` that
stands behind `p` is selected only after `p`. -/
theorem round_robin {s₀ s : Sched} (h₀ : Init s₀) (hreach : Reach SchedStep s₀ s) :
    (∃ s', s.schedule = some s' ∧ (Fair s s' ↔ ¬ s.LosesHead)) ∧
      ∀ (tr : List (Sched × SchedEvent × Sched)) (s' : Sched), Run SchedStep s tr s' →
        (∀ t ∈ tr, t.2.1 = .schedule → ¬ t.1.LosesHead) →
        ∀ q p r, s.Ahead q p r → ∀ tr₁ t tr₂, tr = tr₁ ++ t :: tr₂ → Selects t r →
          ∃ t' ∈ tr₁, Selects t' p := by
  have hok := reach_ok h₀ hreach
  refine ⟨fair_iff hok, ?_⟩
  rintro tr s' hr hl q p r hpr tr₁ t tr₂ rfl hsel
  obtain ⟨hr₁, hs⟩ := hr.split
  refine (ahead_until hok hr₁ (fun t' ht' => hl t' (by simp [ht'])) hpr).resolve_right ?_
  intro hahead
  have hok₁ : Ok t.1 := hr₁.invariant hok fun hok hs => hs.ok hok
  rcases hs.ahead hok₁ (hl t (by simp)) hahead with hp | ⟨-, hno⟩
  · have hnd := ((OkWith.shape hok₁).queue q).nodup
    have hne : p ≠ r := by
      have := hnd.sublist hahead
      simpa using this
    exact hne (hp.2.1.symm.trans hsel.2.1)
  · exact hno hsel

/-! ## Four user processes -/

/-- Start-up with four user processes besides the idle process. -/
def fourUsers : Sched :=
  { procInit with
    proc := fun i =>
      if 0 ≤ i ∧ i ≤ 4 then
        some { procType := 3, state := 0, counter := 0, pid := i, utime := 0, stime := 0 }
      else none }

theorem fourUsers_init : Init fourUsers where
  table i pr hp := by
    simp only [fourUsers] at hp
    split_ifs at hp with hi
    obtain rfl := Option.some.inj hp
    exact ⟨hi.1, lt_of_le_of_lt hi.2 (by decide), rfl, rfl, .user, rfl⟩
  idle := ⟨_, rfl, rfl⟩
  current := rfl
  head _ := rfl
  tail _ := rfl

/-- Three calls of `schedule` in a row. -/
theorem fourUsers_calls : ∃ s s' s'' s₁, fourUsers.schedule = some s ∧ s.schedule = some s' ∧
    s'.schedule = some s'' ∧ s.addRunningProc = some s₁ ∧
    s.ready .user = [2, 3, 4] ∧ s₁.ready .user = [2, 3, 4] ∧ s'.ready .user = [4, 1] ∧
    s'.procCurrent = 2 ∧ s''.procCurrent = 4 := by
  have hrun : (fourUsers.schedule.bind fun s => s.schedule.bind fun s' => s'.schedule.bind fun s'' =>
      s.addRunningProc.map fun s₁ => (s.ready .user, s₁.ready .user, s'.ready .user,
        s'.procCurrent, s''.procCurrent))
      = some ([2, 3, 4], [2, 3, 4], [4, 1], 2, 4) := by decide +kernel
  simp only [Option.bind_eq_some_iff, Option.map_eq_some_iff, Prod.mk.injEq] at hrun
  obtain ⟨s, h, s', h', s'', h'', s₁, h₁, e⟩ := hrun
  exact ⟨s, s', s'', s₁, h, h', h'', h₁, e⟩

/-- The state after the first call satisfies the premises of `round_robin`. -/
theorem round_robin_fourUsers : ∃ s, s.ready .user = [2, 3, 4] ∧
    (∃ s', s.schedule = some s' ∧ (Fair s s' ↔ ¬ s.LosesHead)) ∧
    ∀ (tr : List (Sched × SchedEvent × Sched)) (s' : Sched), Run SchedStep s tr s' →
      (∀ t ∈ tr, t.2.1 = .schedule → ¬ t.1.LosesHead) →
      ∀ tr₁ t tr₂, tr = tr₁ ++ t :: tr₂ → Selects t 4 → ∃ t' ∈ tr₁, Selects t' 3 := by
  obtain ⟨s, -, -, -, h, -, -, -, hready, -⟩ := fourUsers_calls
  have hrr := round_robin fourUsers_init
    (Reach.snoc (e := SchedEvent.schedule) .refl h)
  refine ⟨s, hready, hrr.1, fun tr s' hr hl => hrr.2 tr s' hr hl .user 3 4 ?_⟩
  unfold Ahead
  rw [hready]
  decide

/-- A call that is not fair: process 3 falls out of the queue, and process 4, which was behind
it, is selected next. -/
theorem overtaken : ∃ s₀ s s' s'', Init s₀ ∧ Reach SchedStep s₀ s ∧ s.schedule = some s' ∧
    s'.schedule = some s'' ∧ ¬ Fair s s' ∧ s.Ahead .user 3 4 ∧
    ¬ Selects (s, .schedule, s') 3 ∧ Selects (s', .schedule, s'') 4 := by
  obtain ⟨s, s', s'', s₁, h, h', h'', h₁, hr, hr₁, hr', hc', hc''⟩ := fourUsers_calls
  refine ⟨fourUsers, s, s', s'', fourUsers_init, .snoc (e := SchedEvent.schedule) .refl h, h', h'',
    ?_, ?_, ?_, ?_⟩
  · intro hfair
    have := hfair.leaves s₁ h₁ .user 3 (by rw [hr₁]; decide) (by rw [hr']; decide)
    rw [hc'] at this
    exact absurd this (by decide)
  · unfold Ahead
    rw [hr]
    decide
  · intro hsel
    exact absurd (hc'.symm.trans hsel.2.1) (by decide)
  · refine ⟨rfl, hc'', ?_⟩
    show s'.procCurrent ≠ 4
    rw [hc']
    decide

end Mks.Sched
