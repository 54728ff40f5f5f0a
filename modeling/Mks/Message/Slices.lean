import Mks.Message.ReadyQueues

set_option autoImplicit false

/-! # Time slices

While another process of the same or a higher priority is ready, the current process keeps the
processor for at most `COUNTER` clock interrupts that are taken in user mode. No counter is ever
above `COUNTER`; an interrupt in user mode that does not end the slice takes one off it, no other
operation that leaves the process current adds to it, and a call of `schedule()` would select
somebody else (`schedule_leaves`).
-/

namespace Mks.Sched

open Linked

/-! ## The counters -/

/-- No process has more than a full time slice left. -/
def CountersLe (s : Sched) : Prop := ∀ i pr, s.proc i = some pr → pr.counter ≤ COUNTER

theorem CountersLe.modify {s s' : Sched} (h : CountersLe s) {p : Int} {f : ProcStruct → ProcStruct}
    (hs : s.modify p f = some s') (hf : ∀ pr, pr.counter ≤ COUNTER → (f pr).counter ≤ COUNTER) :
    CountersLe s' := by
  obtain ⟨pr, hp, rfl⟩ := Option.map_eq_some_iff.mp hs
  intro i pr' hp'
  simp only [] at hp'
  by_cases hi : i = p
  · subst hi
    rw [Function.update_self] at hp'
    obtain rfl := Option.some.inj hp'
    exact hf pr (h i pr hp)
  · rw [Function.update_of_ne hi] at hp'
    exact h i pr' hp'

theorem pick_proc {s s' : Sched} {flag n : Int} (h : s.pick flag = some (n, s')) :
    s'.proc = s.proc := by
  have take : ∀ q, s.takeHead q = some (n, s') → s'.proc = s.proc := by
    intro q hq
    obtain ⟨p, -, hq⟩ := Option.bind_eq_some_iff.mp hq
    obtain ⟨pr, -, he⟩ := Option.map_eq_some_iff.mp hq
    obtain ⟨-, rfl⟩ := Prod.mk.injEq .. ▸ he
    rfl
  unfold pick at h
  split_ifs at h
  · exact take _ h
  · exact take _ h
  · exact take _ h
  · cases h
    rfl

theorem requeue_proc {s s' : Sched} {t : Int} (h : s.requeue t = some s') : s'.proc = s.proc := by
  unfold requeue at h
  simp only [] at h
  split at h
  · cases h
    rfl
  split at h
  · cases h
    rfl
  · obtain ⟨z, -, h⟩ := Option.bind_eq_some_iff.mp h
    obtain ⟨b, -, rfl⟩ := Option.map_eq_some_iff.mp h
    rfl

theorem CountersLe.switchTo {s s' : Sched} (h : CountersLe s) {n counter : Int}
    (hc : counter ≤ COUNTER) (hs : s.switchTo n counter = some s') : CountersLe s' := by
  unfold Sched.switchTo at hs
  obtain ⟨s₁, h₁, rfl⟩ := Option.map_eq_some_iff.mp hs
  have hle : CountersLe s₁ := h.modify h₁ (by intro _ _; exact hc)
  exact hle

/-- `schedule` gives nobody more than a full time slice. -/
theorem CountersLe.schedule {s s' : Sched} (h : CountersLe s) (hok : Ok s)
    (hs : s.schedule = some s') : CountersLe s' := by
  unfold Sched.schedule at hs
  obtain ⟨cur, -, hs⟩ := Option.bind_eq_some_iff.mp hs
  obtain ⟨s₁, h₁, hs⟩ := Option.bind_eq_some_iff.mp hs
  obtain ⟨⟨n, s₂⟩, h₂, hs⟩ := Option.bind_eq_some_iff.mp hs
  have hle : CountersLe s₂ := by
    obtain ⟨s', h', hp, -⟩ := addRunningProc_spec hok
    obtain rfl := Option.some.inj (h'.symm.trans h₁)
    intro i pr hi
    rw [pick_proc h₂, hp] at hi
    exact h i pr hi
  simp only [] at hs
  split_ifs at hs
  · exact hle.modify hs fun _ _ => le_refl _
  · obtain rfl := Option.some.inj hs
    exact hle
  · exact hle.switchTo (by decide) hs
  · obtain ⟨s₃, h₃, hs⟩ := Option.bind_eq_some_iff.mp hs
    have hle₃ : CountersLe s₃ := by
      intro i pr hi
      rw [requeue_proc h₃] at hi
      exact hle i pr hi
    exact hle₃.switchTo (le_refl _) hs
  · exact hle.switchTo (le_refl _) hs

theorem AccessStep.countersLe {s s' : Sched} {a : Access} (h : Ok s ∧ CountersLe s)
    (ha : AccessStep s a s') : Ok s' ∧ CountersLe s' := by
  refine ⟨ha.ok h.1, ?_⟩
  cases ha with
  | @event e _ he =>
      cases e with
      | schedule => exact h.2.schedule h.1 he
      | sleep => exact h.2.modify he.2 fun _ hle => hle
      | wake p => exact h.2.modify he fun _ hle => hle
  | jiffy => exact h.2
  | tick hs =>
      refine h.2.modify hs fun pr hle => ?_
      split_ifs
      · exact le_trans (Int.sub_le_self _ (by decide)) hle
      · exact le_trans (Int.sub_le_self _ (by decide)) hle
  | expire hs => exact h.2.modify hs fun _ _ => show (0 : Int) ≤ COUNTER by decide

/-! ## The types -/

def typeOf (s : Sched) (i : Int) : Option Int := (s.proc i).map fun pr => pr.procType

theorem typeOf_modify {s s' : Sched} {p : Int} {f : ProcStruct → ProcStruct}
    (hs : s.modify p f = some s') (hf : ∀ pr, (f pr).procType = pr.procType) :
    s'.typeOf = s.typeOf := by
  obtain ⟨pr, hp, rfl⟩ := Option.map_eq_some_iff.mp hs
  funext i
  unfold typeOf
  by_cases hi : i = p
  · subst hi
    simp [hp, hf]
  · simp [Function.update_of_ne hi]

theorem Same.typeOf {s s' : Sched} (h : Same s s') : s'.typeOf = s.typeOf := by
  funext i
  have hi := congrArg (Option.map fun st : Int × Int × Int => st.1) (h i)
  rw [Option.map_map, Option.map_map] at hi
  exact hi

/-- No access changes the type of a process. -/
theorem AccessStep.typeOf {s s' : Sched} {a : Access} (h : Ok s) (ha : AccessStep s a s') :
    s'.typeOf = s.typeOf := by
  cases ha with
  | @event e _ he =>
      cases e with
      | schedule =>
          obtain ⟨s₁, -, h₁, hsame, -⟩ := schedule_spec h
          obtain rfl := Option.some.inj (h₁.symm.trans he)
          exact hsame.typeOf
      | sleep => exact typeOf_modify he.2 fun _ => rfl
      | wake p => exact typeOf_modify he fun _ => rfl
  | jiffy => rfl
  | tick hs => exact typeOf_modify hs fun pr => by split_ifs <;> rfl
  | expire hs => exact typeOf_modify hs fun _ => rfl

/-! ## Losing the processor -/

/-- Process `b` is ready and may run in the place of the current process. -/
structure Rival (s : Sched) (b : Int) : Prop where
  pos : 1 ≤ b
  ne : b ≠ s.procCurrent
  runs : s.stateOf b = some RUNNING
  type : ∃ t t', s.typeOf b = some t ∧ s.typeOf s.procCurrent = some t' ∧ t ≤ t'

theorem Rival.congr {s s' : Sched} {b : Int} (h : s.Rival b) (ht : s'.typeOf = s.typeOf)
    (hc : s'.procCurrent = s.procCurrent) (hr : s'.stateOf b = some RUNNING) : s'.Rival b := by
  refine ⟨h.pos, hc ▸ h.ne, hr, ?_⟩
  rw [ht, hc]
  exact h.type

/-- A rival waits in the queue of its type. -/
theorem Rival.mem_joined {s : Sched} {b : Int} (h : s.Rival b) (hok : Ok s) :
    ∃ q, b ∈ joined s s.ready q ∧ ∃ cur, s.proc s.procCurrent = some cur ∧
      q.type ≤ cur.procType := by
  obtain ⟨t, t', ht, ht', hle⟩ := h.type
  obtain ⟨pr, hp, hst⟩ := Option.map_eq_some_iff.mp h.runs
  obtain ⟨cur, hcur, rfl⟩ := Option.map_eq_some_iff.mp ht'
  obtain ⟨-, -, -, q, hq⟩ := hok.table b pr hp
  refine ⟨q, (mem_joined_iff hok).mpr ⟨h.ne, pr, ⟨h.pos, hp, hst⟩, hq⟩, cur, hcur, ?_⟩
  rw [typeOf, hp, Option.map_some, hq] at ht
  obtain rfl := Option.some.inj ht
  exact hle

/-- `schedule` takes the processor from a process that sleeps or has a rival. -/
theorem schedule_leaves {s s' : Sched} (h : Ok s) (h1 : 1 ≤ s.procCurrent)
    (hr : s.CurrentRuns → ∃ b, s.Rival b) (hs : s.schedule = some s') :
    s'.procCurrent ≠ s.procCurrent := by
  obtain ⟨s₁, ql', h₁, -, -, hsch⟩ := schedule_spec h
  obtain rfl := Option.some.inj (h₁.symm.trans hs)
  have other : ∀ {q n rest}, joined s s.ready q = n :: rest → n ≠ s.procCurrent := by
    intro q n rest hq
    exact ((mem_joined_iff h (q := q) (i := n)).mp (by rw [hq]; simp)).1
  cases hsch with
  | stay hrun hc hcur =>
      obtain ⟨b, hb⟩ := hr hrun
      obtain ⟨q, hq, cur, hp, hle⟩ := hb.mem_joined h
      obtain ⟨pr, hp', hrun'⟩ := hrun
      obtain rfl := Option.some.inj (hp.symm.trans hp')
      have hlt := choice_none hc (List.ne_nil_of_mem hq)
      rw [flag_of_runs hp hrun'] at hlt
      omega
  | idle hrun hc hcur =>
      rw [hcur]
      omega
  | switch q n rest hrun hc hq hcur => exact hcur ▸ other hq
  | preempt q n rest t pr hp hrun ht h0 hc hq hcur => exact hcur ▸ other hq

/-- A clock interrupt calls `schedule` at the end of a time slice, and otherwise only counts. -/
theorem doIntrClock_cases {s s' : Sched} {cpl : Int} {cur : ProcStruct} (h : Ok s)
    (hcur : s.proc s.procCurrent = some cur) (hs : s.doIntrClock cpl = some s') :
    (∃ s₂, Ok s₂ ∧ s₂.stateOf = s.stateOf ∧ s₂.typeOf = s.typeOf ∧
      s₂.procCurrent = s.procCurrent ∧ s₂.schedule = some s') ∨
    ((cpl ≠ 0 → 1 < cur.counter) ∧ s'.procCurrent = s.procCurrent ∧
      ∃ cur', s'.proc s.procCurrent = some cur' ∧ cur'.counter = max (cur.counter - 1) 0) := by
  have h₀ : OkWith { s with jiffies := s.jiffies + 1 } s.ready :=
    ⟨h.table, h.idle, h.current, h.shape, h.member⟩
  unfold doIntrClock at hs
  obtain ⟨s₁, h₁, hs⟩ := Option.bind_eq_some_iff.mp hs
  obtain ⟨s₁', h₁', hok₁, hst₁, hc₁, hcur₁⟩ := h₀.count hcur
    (f := fun pr => if cpl ≠ 0 then { pr with utime := pr.utime + 1, counter := pr.counter - 1 }
      else { pr with stime := pr.stime + 1, counter := pr.counter - 1 })
    (by split_ifs <;> rfl)
  obtain rfl := Option.some.inj (h₁'.symm.trans h₁)
  have hty₁ : s₁'.typeOf = ({ s with jiffies := s.jiffies + 1 } : Sched).typeOf :=
    typeOf_modify h₁ fun pr => by split_ifs <;> rfl
  have hcounter : (if cpl ≠ 0 then { cur with utime := cur.utime + 1, counter := cur.counter - 1 }
      else { cur with stime := cur.stime + 1, counter := cur.counter - 1 } : ProcStruct).counter
      = cur.counter - 1 := by
    split_ifs <;> rfl
  rw [hcur₁, Option.bind_some, hcounter] at hs
  split at hs
  · obtain rfl := Option.some.inj hs
    refine .inr ⟨fun _ => by omega, hc₁, _, hc₁ ▸ hcur₁, ?_⟩
    rw [hcounter]
    omega
  -- the time slice is used up
  obtain ⟨s₂, h₂, hs⟩ := Option.bind_eq_some_iff.mp hs
  obtain ⟨s₂', h₂', hok₂, hst₂, hc₂, hcur₂⟩ :=
    hok₁.count hcur₁ (f := fun pr => { pr with counter := 0 }) rfl
  obtain rfl := Option.some.inj (h₂'.symm.trans h₂)
  split at hs
  · obtain rfl := Option.some.inj hs
    have hc := hc₂.trans hc₁
    refine .inr ⟨fun hne => absurd ‹cpl = 0› hne, hc, _, hc ▸ hcur₂, ?_⟩
    show (0 : Int) = _
    omega
  · refine .inl ⟨s₂', hok₂.ok, hst₂.trans hst₁, ?_, hc₂.trans hc₁, hs⟩
    exact (typeOf_modify h₂ fun _ => rfl).trans hty₁

end Mks.Sched

namespace Mks.Kernel

open Sched

variable {L : Layout} {k k' : Kernel}

/-! ## Slices of the kernel -/

/-- A clock interrupt that is taken in user mode. -/
def userTick (t : Kernel × (Op × Int) × Kernel) : Bool :=
  match t.2.1.1 with
  | .clock cpl => cpl ≠ 0
  | _ => false

theorem step_typeOf {e : Op × Int} (h : Ok L k) (hs : Step L k e k') :
    k'.sched.typeOf = k.sched.typeOf := by
  obtain ⟨w, hw⟩ := step_accesses h.queues.sched hs
  have hinv : k'.sched.Ok ∧ k'.sched.typeOf = k.sched.typeOf := by
    refine hw.invariant (I := fun s => s.Ok ∧ s.typeOf = k.sched.typeOf) ⟨h.queues.sched, rfl⟩ ?_
    intro s a s' h ha
    exact ⟨ha.ok h.1, (ha.typeOf h.1).trans h.2⟩
  exact hinv.2

/-- The kernel after start-up, with the counters as `INIT_PROC_DATA` sets them. -/
structure FreshStart (k : Kernel) : Prop extends Start k where
  counter : ∀ i pr, k.sched.proc i = some pr → pr.counter = 0

theorem run_countersLe {k₀ : Kernel} {tr : List (Kernel × (Op × Int) × Kernel)}
    (h₀ : FreshStart k₀) (hr : Run (Step L) k₀ tr k) : k.sched.CountersLe := by
  have hinv : Ok L k ∧ k.sched.CountersLe := by
    refine hr.invariant (I := fun k => Ok L k ∧ k.sched.CountersLe) ⟨h₀.ok, ?_⟩ ?_
    · intro i pr hp
      rw [h₀.counter i pr hp]
      decide
    intro k e k' h hs
    obtain ⟨w, hw⟩ := step_accesses h.1.queues.sched hs
    refine ⟨(step_cases h.1 hs).1, ?_⟩
    exact (hw.invariant ⟨h.1.queues.sched, h.2⟩ fun h ha => ha.countersLe h).2
  exact hinv.2

/-- A call of `schedule` by an operation takes the processor from a process with a rival. -/
theorem Effect.leaves {s s' : Sched} (he : Effect s 1 s') (h : s.Ok) (h1 : 1 ≤ s.procCurrent)
    {b : Int} (hb : s.Rival b) : s'.procCurrent ≠ s.procCurrent := by
  cases he with
  | schedule hs => exact schedule_leaves h h1 (fun _ => ⟨b, hb⟩) hs
  | @wake p s₁ _ h₁ hs =>
      obtain ⟨hok, hc⟩ := setState_spec h h₁ (.inl rfl)
      have hb₁ : s₁.Rival b := by
        refine hb.congr (typeOf_modify h₁ fun _ => rfl) hc ?_
        obtain ⟨pr, hpr, hproc, -⟩ := setState_inv h₁
        unfold stateOf
        by_cases hbp : b = p
        · subst hbp
          rw [hproc, Function.update_self]
          rfl
        · rw [hproc, Function.update_of_ne hbp]
          exact hb.runs
      exact hc ▸ schedule_leaves hok.ok (hc ▸ h1) (fun _ => ⟨b, hb₁⟩) hs
  | @sleep s₁ _ h0 h₁ hs =>
      obtain ⟨hok, hc⟩ := setState_spec h h₁ (.inr ⟨rfl, h0⟩)
      refine hc ▸ schedule_leaves hok.ok (hc ▸ h1) (fun hrun => ?_) hs
      -- the current process sleeps
      exfalso
      obtain ⟨pr, hp, hrun⟩ := hrun
      obtain ⟨pr', hpr', hproc, -⟩ := setState_inv h₁
      rw [hc, hproc, Function.update_self] at hp
      obtain rfl := Option.some.inj hp
      exact absurd hrun (by decide : SLEEPING ≠ RUNNING)

/-- What the current process has left of its time slice. -/
def sliceLeft (k : Kernel) : Int :=
  max (((k.sched.proc k.sched.procCurrent).map fun pr => pr.counter).getD 0) 1

/-- What leaves the scheduler alone takes nothing off the slice. -/
theorem sliceLeft_quiet {op : Op} {r : Int} (hu : userTick (k, (op, r), k') = false)
    (hk : k'.sched = k.sched) :
    (if userTick (k, (op, r), k') then 1 else 0) + k'.sliceLeft ≤ k.sliceLeft := by
  rw [hu, sliceLeft, sliceLeft, hk]
  simp

/-- A call of a process with a rival takes the processor away, or leaves the scheduler alone. -/
theorem Effect.quiet {s s' : Sched} {r b : Int} (he : Effect s r s') (h : s.Ok)
    (h1 : 1 ≤ s.procCurrent) (hb : s.Rival b) :
    s'.procCurrent ≠ s.procCurrent ∨ r ≠ 1 ∧ s' = s := by
  by_cases hr1 : r = 1
  · subst hr1
    exact .inl (he.leaves h h1 hb)
  · cases he with
    | none => exact .inr ⟨hr1, rfl⟩
    | schedule _ | wake _ _ | sleep _ _ _ => contradiction

/-- A clock interrupt, of which only those in user mode use up the slice. -/
theorem clock_slice (h : Ok L k) (h1 : 1 ≤ k.sched.procCurrent) {b cpl r : Int}
    (hb : k.sched.Rival b) {n : Nat} (hs : k.exec n L (.clock cpl) = some (r, k')) :
    k'.sched.procCurrent ≠ k.sched.procCurrent ∨
    (¬ CallsSchedule (k, .op (.clock cpl) r, k') ∧
      (if userTick (k, (.clock cpl, r), k') then 1 else 0) + k'.sliceLeft ≤ k.sliceLeft) := by
  obtain ⟨s', hs', he⟩ := Option.map_eq_some_iff.mp hs
  obtain ⟨-, rfl⟩ := Prod.mk.injEq .. ▸ he
  obtain ⟨cur, hcur⟩ := h.queues.sched.current
  rcases doIntrClock_cases h.queues.sched hcur hs' with
    ⟨s₂, hok, hst, hty, hc, hsch⟩ | ⟨hmore, hc, cur', hcur', hcounter⟩
  · refine .inl ?_
    have hb₂ : s₂.Rival b := hb.congr hty hc (hst ▸ hb.runs)
    exact hc ▸ schedule_leaves hok (hc ▸ h1) (fun _ => ⟨b, hb₂⟩) hsch
  · refine .inr ⟨?_, ?_⟩
    · rintro ⟨hne, cur₁, hcur₁, hle⟩
      obtain rfl := Option.some.inj (hcur.symm.trans hcur₁)
      have := hmore hne
      omega
    · unfold sliceLeft
      simp only [hc, hcur, hcur', Option.map_some, Option.getD_some, hcounter, userTick]
      by_cases hne : cpl = 0
      · simp only [hne, ne_eq, not_true_eq_false, decide_false, Bool.false_eq_true, if_false]
        omega
      · have := hmore hne
        simp only [hne, ne_eq, not_false_eq_true, decide_true, if_true]
        omega

/-- **One operation** of a process with a rival: it loses the processor, or it does not call
`schedule` and has less of its time slice left after an interrupt in user mode. -/
theorem step_slice {e : Op × Int} (h : Ok L k) (h1 : 1 ≤ k.sched.procCurrent) {b : Int}
    (hb : k.sched.Rival b) (hs : Step L k e k') :
    k'.sched.procCurrent ≠ k.sched.procCurrent ∨
    (¬ CallsSchedule (k, .op e.1 e.2, k') ∧
      (if userTick (k, e, k') then 1 else 0) + k'.sliceLeft ≤ k.sliceLeft) := by
  obtain ⟨op, r⟩ := e
  obtain ⟨n, hs⟩ := hs
  cases op with
  | msg f ebx ecx =>
      simp only [exec] at hs
      split_ifs at hs with h0
      have hq := (intrMsg_effect h.queues.sched h0 hs).quiet h.queues.sched h1 hb
      exact hq.imp_right fun hq => ⟨hq.1, sliceLeft_quiet rfl hq.2⟩
  | hardware dest msg =>
      have hq := (smallSend_effect (.inl rfl) hs).quiet h.queues.sched h1 hb
      exact hq.imp_right fun hq => ⟨hq.1, sliceLeft_quiet rfl hq.2⟩
  | clock cpl => exact clock_slice h h1 hb hs
  | read | write | kernelStore =>
      obtain ⟨mem, rfl⟩ := exec_access rfl hs
      exact .inr ⟨fun hc => hc, sliceLeft_quiet rfl rfl⟩

/-- A continuation in which process `a` is current and has the rival `b` before every operation. -/
def Contended (a b : Int) (tr : List (Kernel × (Op × Int) × Kernel)) : Prop :=
  ∀ t ∈ tr, t.1.sched.procCurrent = a ∧ t.1.sched.stateOf b = some RUNNING

/-- A process that is runnable, and whose type is not above that of the current process. -/
theorem rival_of_runnable {b : Int} {pr cur : ProcStruct} (hb : k.sched.Runnable b pr)
    (hne : b ≠ k.sched.procCurrent) (hcur : k.sched.proc k.sched.procCurrent = some cur)
    (hle : pr.procType ≤ cur.procType) : k.sched.Rival b := by
  refine ⟨hb.1, hne, ?_, pr.procType, cur.procType, ?_, ?_, hle⟩
  · rw [stateOf, hb.2.1, Option.map_some, hb.2.2]
  · rw [Sched.typeOf, hb.2.1, Option.map_some]
  · rw [Sched.typeOf, hcur, Option.map_some]

/-- The slice over a continuation: it is being used up, or the process has lost the processor. -/
theorem run_slice {a b : Int} {tr : List (Kernel × (Op × Int) × Kernel)} (h : Ok L k) (h1 : 1 ≤ a)
    (ha : k.sched.procCurrent = a) (hb : k.sched.Rival b) (hr : Run (Step L) k tr k')
    (hc : Contended a b tr) :
    Ok L k' ∧ k'.sched.typeOf = k.sched.typeOf ∧ (tr.countP userTick : Int) ≤ k.sliceLeft ∧
      (k'.sched.procCurrent = a → (tr.countP userTick : Int) + k'.sliceLeft ≤ k.sliceLeft) := by
  induction hr with
  | nil =>
      refine ⟨h, rfl, ?_, fun _ => by simp⟩
      have : 1 ≤ k.sliceLeft := le_max_right _ _
      simp only [List.countP_nil, Nat.cast_zero]
      omega
  | @snoc tr k₁ k₂ e hr hs ih =>
      obtain ⟨hok, hty, -, hle⟩ := ih fun t ht => hc t (by simp [ht])
      obtain ⟨hcur, hrun⟩ := hc (k₁, e, k₂) (by simp)
      have hb₁ : k₁.sched.Rival b := hb.congr hty (hcur.trans ha.symm) hrun
      have hleft : 1 ≤ k₁.sliceLeft := le_max_right _ _
      have hle := hle hcur
      have hcount : ((tr ++ [(k₁, e, k₂)]).countP userTick : Int)
          = tr.countP userTick + if userTick (k₁, e, k₂) then 1 else 0 := by
        rw [List.countP_append, List.countP_singleton]
        split <;> simp
      refine ⟨(step_cases hok hs).1, (step_typeOf hok hs).trans hty, ?_, fun hcur' => ?_⟩
      · rw [hcount]
        split <;> omega
      · have hstep := (step_slice hok (hcur ▸ h1) hb₁ hs).resolve_left fun hne =>
          hne (hcur'.trans hcur.symm)
        rw [hcount]
        omega

/-- **Time slices are bounded.** In every continuation of a run in which process `a` stays current
and a process `b` of the same or a higher priority stays runnable, at most `COUNTER` clock
interrupts are taken in user mode, and an operation that then calls `schedule` takes the
processor from `a`. -/
theorem time_slices_bounded {k₀ : Kernel} {tr₀ tr : List (Kernel × (Op × Int) × Kernel)} {a b : Int}
    {pr cur : ProcStruct} (h₀ : FreshStart k₀) (hr₀ : Run (Step L) k₀ tr₀ k)
    (ha : k.sched.procCurrent = a)
    (h1 : 1 ≤ a) (hcur : k.sched.proc a = some cur) (hne : b ≠ a) (hb : k.sched.Runnable b pr)
    (hle : pr.procType ≤ cur.procType) (hr : Run (Step L) k tr k') (hc : Contended a b tr) :
    (tr.countP userTick : Int) ≤ COUNTER ∧
      (k'.sched.procCurrent = a → k'.sched.stateOf b = some RUNNING →
        ∀ e k'', Step L k' e k'' → CallsSchedule (k', .op e.1 e.2, k'') →
          k''.sched.procCurrent ≠ a) := by
  subst ha
  have hok := run_ok h₀.toStart hr₀
  have hrival : k.sched.Rival b := rival_of_runnable hb hne hcur hle
  obtain ⟨hok', hty, hticks, -⟩ := run_slice hok h1 rfl hrival hr hc
  constructor
  · have hslice : k.sliceLeft ≤ COUNTER := by
      have hcounter := run_countersLe h₀ hr₀ _ cur hcur
      unfold sliceLeft
      rw [hcur]
      exact max_le hcounter (by decide)
    omega
  · intro hcur' hrun e k'' hs hcalls
    have hb' : k'.sched.Rival b := hrival.congr hty hcur' hrun
    rcases step_slice hok' (hcur' ▸ h1) hb' hs with hleft | ⟨hno, -⟩
    · exact hcur' ▸ hleft
    · exact absurd hcalls hno

/-- The kernel after start-up with four user processes. -/
def users : Kernel := ({ start blank with sched := fourUsers } : Kernel).msgInit

theorem users_start : FreshStart users where
  toStart := msgInit_start fourUsers_init
  counter i pr hp := by
    have hp : (if 0 ≤ i ∧ i ≤ 4 then some _ else none) = some pr := hp
    split_ifs at hp
    obtain rfl := Option.some.inj hp
    rfl

/-- Process 1 uses up its slice in ten interrupts, while process 2 is ready. -/
theorem time_slices_bounded_users : ∃ tr₀ k tr k',
    Run (Step (stackLayout 0x18000)) users tr₀ k ∧ Run (Step (stackLayout 0x18000)) k tr k' ∧
    k.sched.procCurrent = 1 ∧ Contended 1 2 tr ∧ tr.countP userTick = 10 ∧
    (tr.countP userTick : Int) ≤ COUNTER ∧
      (k'.sched.procCurrent = 1 → k'.sched.stateOf 2 = some RUNNING →
        ∀ e k'', Step (stackLayout 0x18000) k' e k'' → CallsSchedule (k', .op e.1 e.2, k'') →
          k''.sched.procCurrent ≠ 1) := by
  have hex : (execs 0 (stackLayout 0x18000) [.clock 3] users).bind (fun r₀ =>
      (execs 0 (stackLayout 0x18000) (List.replicate 10 (.clock 3)) r₀.2).map fun r =>
        decide (r₀.2.sched.procCurrent = 1 ∧ r₀.2.sched.proc 1 = some ⟨3, 0, 10, 1, 0, 0⟩ ∧
          r₀.2.sched.proc 2 = some ⟨3, 0, 0, 2, 0, 0⟩ ∧ r.1.countP userTick = 10 ∧
          r.1.map (fun t => (t.1.sched.procCurrent, t.1.sched.stateOf 2))
            = List.replicate 10 (1, some RUNNING))) = some true := by decide +kernel
  obtain ⟨⟨tr₀, k⟩, hk, he⟩ := Option.bind_eq_some_iff.mp hex
  obtain ⟨⟨tr, k'⟩, hk', he⟩ := Option.map_eq_some_iff.mp he
  obtain ⟨hcur, hp₁, hp₂, hcount, hall⟩ := of_decide_eq_true he
  have hr₀ := execs_run hk
  have hr := execs_run hk'
  have hc : Contended 1 2 tr := by
    intro t ht
    have hmem := List.mem_map_of_mem (f := fun t : Kernel × (Op × Int) × Kernel =>
      (t.1.sched.procCurrent, t.1.sched.stateOf 2)) ht
    rw [hall] at hmem
    exact Prod.mk.inj (List.eq_of_mem_replicate hmem)
  exact ⟨tr₀, k, tr, k', hr₀, hr, hcur, hc, hcount, time_slices_bounded users_start hr₀ hcur
    (by decide) hp₁ (by decide) ⟨by decide, hp₂, rfl⟩ (by decide) hr hc⟩

end Mks.Kernel
