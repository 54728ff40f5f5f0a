import Mks.Process.Ready
import Mks.Lib.Run

set_option autoImplicit false

/-! # Priorities

Which process `schedule` runs. The queue `choice` picks from is the first one, by type, that
holds a process, provided that type is allowed by `flag`; with `mem_joined` this makes the
process selected one of minimal type among all runnable ones (`schedule_minimal`).
-/

namespace Mks.Sched

open Linked

/-- A process other than the idle one that is RUNNING. -/
def Runnable (s : Sched) (i : Int) (pr : ProcStruct) : Prop :=
  1 ≤ i ∧ s.proc i = some pr ∧ pr.state = RUNNING

theorem ReadyQueue.type_cases (q : ReadyQueue) : 1 ≤ q.type ∧ q.type ≤ 3 := by
  cases q <;> simp [ReadyQueue.type]

/-- The queue picked from comes first, by type, among the queues that are not empty. -/
theorem choice_min {ql : ReadyQueue → List Int} {flag : Int} {q q' : ReadyQueue}
    (h : choice ql flag = some q) (h' : ql q' ≠ []) : q.type ≤ q'.type := by
  unfold choice at h
  cases q <;> cases q' <;> simp only [ReadyQueue.type] <;> grind

theorem choice_le_flag {ql : ReadyQueue → List Int} {flag : Int} {q : ReadyQueue}
    (h : choice ql flag = some q) (hf : 1 ≤ flag) : q.type ≤ flag := by
  unfold choice at h
  cases q <;> simp only [ReadyQueue.type] <;> grind

/-- Nothing is picked only if every waiting process has a type above `flag`. -/
theorem choice_none {ql : ReadyQueue → List Int} {flag : Int} (h : choice ql flag = none)
    {q : ReadyQueue} (hq : ql q ≠ []) : flag < q.type := by
  unfold choice at h
  cases q <;> simp only [ReadyQueue.type] <;> grind

theorem flag_of_runs {s : Sched} {pr : ProcStruct} (hp : s.proc s.procCurrent = some pr)
    (hr : pr.state = RUNNING) : s.flag = pr.procType := by
  simp [flag, hp, hr]

theorem flag_of_not_runs {s : Sched} (h : ¬ s.CurrentRuns) : s.flag = 3 := by
  unfold flag
  cases hp : s.proc s.procCurrent with
  | none => rfl
  | some pr => exact if_pos fun hr => h ⟨pr, hp, hr⟩

theorem Same.runnable {s s' : Sched} (h : Same s s') {i : Int} {pr : ProcStruct}
    (hr : s.Runnable i pr) : ∃ pr', s'.Runnable i pr' ∧ pr'.procType = pr.procType := by
  obtain ⟨hi, hp, hrun⟩ := hr
  obtain ⟨pr', hp', ht, hst, -⟩ := h.get hp
  exact ⟨pr', ⟨hi, hp', hst.trans hrun⟩, ht⟩

/-- The processes queued after `add_running_proc`: the runnable ones other than the current. -/
theorem mem_joined_iff {s : Sched} {ql : ReadyQueue → List Int} (h : OkWith s ql) {q : ReadyQueue}
    {i : Int} : i ∈ joined s ql q ↔
      i ≠ s.procCurrent ∧ ∃ pr, s.Runnable i pr ∧ pr.procType = q.type := by
  rw [mem_joined h, waits_iff]
  constructor
  · rintro ⟨h0, hc, pr, hp, hr, ht⟩
    have := (h.table i pr hp).1
    exact ⟨hc, pr, ⟨by omega, hp, hr⟩, ht⟩
  · rintro ⟨hc, pr, ⟨hi, hp, hr⟩, ht⟩
    exact ⟨by omega, hc, pr, hp, hr, ht⟩

/-- A runnable process is the current one or waits in the queue of its type. -/
theorem Runnable.cases {s : Sched} {ql : ReadyQueue → List Int} (h : OkWith s ql) {i : Int}
    {pr : ProcStruct} (hr : s.Runnable i pr) :
    i = s.procCurrent ∨ ∃ q : ReadyQueue, pr.procType = q.type ∧ i ∈ joined s ql q := by
  by_cases hc : i = s.procCurrent
  · exact .inl hc
  · obtain ⟨-, -, -, q, hq⟩ := h.table i pr hr.2.1
    exact .inr ⟨q, hq, (mem_joined_iff h).mpr ⟨hc, pr, hr, hq⟩⟩

/-- The current process is runnable and of minimal type if there is a runnable process, and the
idle process if there is none. -/
structure HighestRuns (s : Sched) : Prop where
  minimal : ∀ i pr, s.Runnable i pr → ∃ cur, s.Runnable s.procCurrent cur ∧
    cur.procType ≤ pr.procType
  idle : s.procCurrent = PROC_IDLE_NR ↔ ¬ ∃ i pr, s.Runnable i pr

/-- It is enough to compare with the runnable processes of the state before. -/
theorem HighestRuns.of_same {s s' : Sched} (hsame : Same s s')
    (hmin : ∀ i pr, s.Runnable i pr → ∃ cur, s.Runnable s'.procCurrent cur ∧
      cur.procType ≤ pr.procType)
    (h0 : s'.procCurrent = 0 → ¬ ∃ i pr, s.Runnable i pr)
    (h1 : (¬ ∃ i pr, s.Runnable i pr) → s'.procCurrent = 0) : HighestRuns s' := by
  refine ⟨fun i pr hr => ?_, fun hc => ?_, fun hno => h1 ?_⟩
  · obtain ⟨pr₀, hr₀, ht₀⟩ := hsame.symm.runnable hr
    obtain ⟨cur, hcur, hle⟩ := hmin i pr₀ hr₀
    obtain ⟨cur', hcur', ht'⟩ := hsame.runnable hcur
    exact ⟨cur', hcur', by omega⟩
  · rintro ⟨i, pr, hr⟩
    obtain ⟨pr₀, hr₀, -⟩ := hsame.symm.runnable hr
    exact h0 hc ⟨i, pr₀, hr₀⟩
  · rintro ⟨i, pr, hr⟩
    obtain ⟨pr', hr', -⟩ := hsame.runnable hr
    exact hno ⟨i, pr', hr'⟩

theorem HighestRuns.same {s s' : Sched} (h : HighestRuns s) (hsame : Same s s')
    (hc : s'.procCurrent = s.procCurrent) : HighestRuns s' :=
  .of_same hsame (fun i pr hi => hc ▸ h.minimal i pr hi) (fun e => h.idle.mp (hc ▸ e)) fun hno =>
    hc ▸ h.idle.mpr hno

/-- A process that is switched to wins if no runnable process has a smaller type. -/
theorem HighestRuns.of_switch {s s' : Sched} (hsame : Same s s') {n : Int} {prn : ProcStruct}
    (hn : s.Runnable n prn) (hcur : s'.procCurrent = n)
    (hmin : ∀ i pr, s.Runnable i pr → prn.procType ≤ pr.procType) : HighestRuns s' := by
  refine .of_same hsame (fun i pr hri => ⟨prn, hcur ▸ hn, hmin i pr hri⟩) (fun e => ?_) fun hno => ?_
  · rw [hcur] at e
    exact absurd hn.1 (by omega)
  · exact absurd ⟨n, prn, hn⟩ hno

/-- **The process selected** by `schedule` has the highest priority. -/
theorem schedule_minimal {s : Sched} (h : Ok s) :
    ∃ s', s.schedule = some s' ∧ Same s s' ∧ Ok s' ∧ HighestRuns s' := by
  obtain ⟨s', ql', hs', hsame, hok', hsch⟩ := schedule_spec h
  refine ⟨s', hs', hsame, hok'.ok, ?_⟩
  have hne : ∀ {q i}, i ∈ joined s s.ready q → joined s s.ready q ≠ [] :=
    fun hi e => by rw [e] at hi; cases hi
  have hselected : ∀ {q n rest}, joined s s.ready q = n :: rest →
      ∃ pr, s.Runnable n pr ∧ pr.procType = q.type := by
    intro q n rest hq
    exact ((mem_joined_iff (i := n) h).mp (by rw [hq]; simp)).2
  obtain ⟨idle, hidle, hidler, hidlet⟩ := h.idle
  cases hsch with
  | stay hr hc hcur =>
      obtain ⟨cur, hp, hr⟩ := hr
      have hflag := flag_of_runs hp hr
      have hcge := (h.table _ _ hp).1
      refine .of_same hsame (fun i pr hri => ?_) ?_ ?_ <;> rw [hcur]
      · rcases hri.cases h with rfl | ⟨q, hq, hi⟩
        · exact ⟨pr, hri, le_refl _⟩
        · have hlt := choice_none hc (hne hi)
          have := ReadyQueue.type_cases q
          rw [hflag] at hlt
          by_cases h0 : s.procCurrent = 0
          · rw [h0, hidle] at hp
            obtain rfl := Option.some.inj hp
            omega
          · exact ⟨cur, ⟨by omega, hp, hr⟩, by omega⟩
      · rintro h0 ⟨i, pr, hri⟩
        rcases hri.cases h with rfl | ⟨q, hq, hi⟩
        · exact absurd hri.1 (by omega)
        · have hlt := choice_none hc (hne hi)
          have := ReadyQueue.type_cases q
          rw [h0, hidle] at hp
          obtain rfl := Option.some.inj hp
          omega
      · intro hno
        by_contra h0
        exact hno ⟨_, cur, by omega, hp, hr⟩
  | idle hr hc hcur =>
      have hflag := flag_of_not_runs hr
      have hno : ¬ ∃ i pr, s.Runnable i pr := by
        rintro ⟨i, pr, hri⟩
        rcases hri.cases h with rfl | ⟨q, hq, hi⟩
        · exact hr ⟨pr, hri.2⟩
        · have hlt := choice_none hc (hne hi)
          have := ReadyQueue.type_cases q
          omega
      exact .of_same hsame (fun i pr hri => absurd ⟨i, pr, hri⟩ hno) (fun _ => hno) fun _ => hcur
  | switch q n rest hr hc hq hcur =>
      obtain ⟨prn, hrn, htn⟩ := hselected hq
      refine .of_switch hsame hrn hcur fun i pr hri => ?_
      rcases hri.cases h with rfl | ⟨q', hq', hi⟩
      · rcases hr with hr | hr
        · exact absurd ⟨pr, hri.2⟩ hr
        · exact absurd hri.1 (by omega)
      · have := choice_min hc (hne hi)
        omega
  | preempt q n rest t cur hp hr ht h0 hc hq hcur =>
      obtain ⟨prn, hrn, htn⟩ := hselected hq
      refine .of_switch hsame hrn hcur fun i pr hri => ?_
      rcases hri.cases h with rfl | ⟨q', hq', hi⟩
      · obtain rfl := Option.some.inj (hp.symm.trans hri.2.1)
        have := ReadyQueue.type_cases t
        have := choice_le_flag hc (by rw [flag_of_runs hp hr]; omega)
        rw [flag_of_runs hp hr] at this
        omega
      · have := choice_min hc (hne hi)
        omega

end Mks.Sched
