import Mks.Process.Order
import Mks.Lib.Rotation

set_option autoImplicit false

/-! # Taking turns

The current process and the ready processes of its type share the processor while no process of
higher priority is ready. `Line s t x` says that `x.1` is current, that `x.2` is queue `t` as
`add_running_proc` completes it, and that the queues before `t` are empty. A call of `schedule`
is then a turn that skips one (`Line.schedule`), since `requeue` drops the first process of a
queue that is not empty and the next `add_running_proc` appends it again.
-/

namespace Mks.Sched

open Linked Rotation

variable {t : ReadyQueue} {s s' : Sched} {x : Int × List Int}

/-- Type, state and pid of process `i`, if its type is at most that of `t`. -/
def upTo (t : ReadyQueue) (s : Sched) (i : Int) : Option (Int × Int × Int) :=
  ((s.proc i).map ProcStruct.status).filter fun st => st.1 ≤ t.type

/-- Between `s` and `s'` nobody of a type up to that of `t` fell asleep or was woken. -/
def Steady (t : ReadyQueue) (s s' : Sched) : Prop := ∀ i, s'.upTo t i = s.upTo t i

/-- `x.1` is the current process and runs, and `x.2` are the others that share the processor. -/
structure Line (s : Sched) (t : ReadyQueue) (x : Int × List Int) : Prop where
  current : s.procCurrent = x.1
  pos : 1 ≤ x.1
  runs : ∃ pr, s.proc x.1 = some pr ∧ pr.state = RUNNING ∧ pr.procType = t.type
  higher : ∀ q : ReadyQueue, q.type < t.type → joined s s.ready q = []
  queue : joined s s.ready t = x.2

/-- The current process runs, has the type of `t`, and nobody of a smaller type is runnable. -/
structure Foremost (s : Sched) (t : ReadyQueue) : Prop where
  runs : ∃ pr, s.Runnable s.procCurrent pr ∧ pr.procType = t.type
  first : ∀ i pr, s.Runnable i pr → t.type ≤ pr.procType

/-- What the last call of `schedule` leaves behind, seen from the process that it selected. -/
theorem HighestRuns.foremost (h : HighestRuns s) (h0 : s.procCurrent ≠ PROC_IDLE_NR)
    {cur : ProcStruct} (hcur : s.proc s.procCurrent = some cur) (ht : cur.procType = t.type) :
    Foremost s t := by
  have hmin : ∀ i pr, s.Runnable i pr → s.Runnable s.procCurrent cur ∧ t.type ≤ pr.procType := by
    intro i pr hi
    obtain ⟨cur', hr, hle⟩ := h.minimal i pr hi
    obtain rfl := Option.some.inj (hcur.symm.trans hr.2.1)
    exact ⟨hr, ht ▸ hle⟩
  obtain ⟨i, pr, hi⟩ := not_not.mp (mt h.idle.mpr h0)
  exact ⟨⟨cur, (hmin i pr hi).1, ht⟩, fun i pr hi => (hmin i pr hi).2⟩

/-! ## Steady processes -/

theorem Steady.symm (h : Steady t s s') : Steady t s' s := fun i => (h i).symm

theorem Same.steady (h : Same s s') : Steady t s s' := fun i => by
  unfold upTo
  rw [h i]

theorem Steady.trans {s'' : Sched} (h : Steady t s s') (h' : Steady t s' s'') : Steady t s s'' :=
  fun i => (h' i).trans (h i)

theorem upTo_eq_some {i : Int} {st : Int × Int × Int} :
    s.upTo t i = some st ↔ ∃ pr, s.proc i = some pr ∧ pr.procType ≤ t.type ∧ pr.status = st := by
  simp only [upTo, Option.filter_eq_some_iff, Option.map_eq_some_iff, decide_eq_true_eq]
  constructor
  · rintro ⟨⟨pr, hp, rfl⟩, hle⟩
    exact ⟨pr, hp, hle, rfl⟩
  · rintro ⟨pr, hp, hle, rfl⟩
    exact ⟨⟨pr, hp, rfl⟩, hle⟩

theorem Steady.get (h : Steady t s s') {i : Int} {pr : ProcStruct} (hp : s.proc i = some pr)
    (hle : pr.procType ≤ t.type) :
    ∃ pr', s'.proc i = some pr' ∧ pr'.procType = pr.procType ∧ pr'.state = pr.state ∧
      pr'.pid = pr.pid := by
  have hi : s'.upTo t i = some pr.status := (h i).trans (upTo_eq_some.mpr ⟨pr, hp, hle, rfl⟩)
  obtain ⟨pr', hp', -, hst⟩ := upTo_eq_some.mp hi
  simp only [ProcStruct.status, Prod.mk.injEq] at hst
  exact ⟨pr', hp', hst⟩

theorem Steady.waits (h : Steady t s s') (hc : s'.procCurrent = s.procCurrent) {q : ReadyQueue}
    (hq : q.type ≤ t.type) (i : Int) : s'.waits q i = s.waits q i := by
  have key : ∀ {s s' : Sched}, Steady t s s' → s'.procCurrent = s.procCurrent →
      s.waits q i = true → s'.waits q i = true := by
    intro s s' h hc hw
    obtain ⟨h0, hcur, pr, hp, hr, ht⟩ := waits_iff.mp hw
    obtain ⟨pr', hp', ht', hs', -⟩ := h.get hp (ht ▸ hq)
    exact waits_iff.mpr ⟨h0, hc ▸ hcur, pr', hp', hs'.trans hr, ht'.trans ht⟩
  exact Bool.eq_iff_iff.mpr ⟨key h.symm hc.symm, key h hc⟩

/-- A line in the terms of `add_running_proc`. -/
theorem Foremost.line (h : Ok s) (hf : Foremost s t) {s₁ : Sched}
    (hq : s.addRunningProc = some s₁) : Line s t (s.procCurrent, s₁.ready t) := by
  obtain ⟨pr, ⟨hpos, hp, hr⟩, ht⟩ := hf.runs
  obtain ⟨s₂, h₂, -, -, hok₂⟩ := addRunningProc_spec h
  obtain rfl := Option.some.inj (hq.symm.trans h₂)
  refine ⟨rfl, hpos, ⟨pr, hp, hr, ht⟩, fun q hlt => ?_, (congrFun hok₂.ready_eq t).symm⟩
  refine List.eq_nil_iff_forall_not_mem.mpr fun i hi => ?_
  obtain ⟨-, pri, hri, hti⟩ := (mem_joined_iff h).mp hi
  have := hf.first i pri hri
  omega

/-- A change that leaves the queues and these processes alone leaves the line alone. -/
theorem Line.quiet (hl : Line s t x) (h' : OkWith s' s.ready) (hst : Steady t s s')
    (hc : s'.procCurrent = s.procCurrent) : Line s' t x := by
  have hjoined : ∀ q : ReadyQueue, q.type ≤ t.type →
      joined s' s'.ready q = joined s s.ready q := by
    intro q hq
    rw [h'.ready_eq]
    unfold joined
    congr 1
    refine List.filter_congr fun i _ => ?_
    rw [hst.waits hc hq]
  obtain ⟨pr, hp, hr, ht⟩ := hl.runs
  obtain ⟨pr', hp', ht', hr', -⟩ := hst.get hp ht.le
  exact {
    current := hc.trans hl.current
    pos := hl.pos
    runs := ⟨pr', hp', hr'.trans hr, ht'.trans ht⟩
    higher := fun q hq => (hjoined q hq.le).trans (hl.higher q hq)
    queue := (hjoined t le_rfl).trans hl.queue }

/-! ## A call of `schedule` -/

/-- `add_running_proc` appends nothing to a queue that has all its processes. -/
theorem joined_eq_self {ql : ReadyQueue → List Int} {q : ReadyQueue}
    (h : ∀ i, s.waits q i = true → i ∈ ql q) : joined s ql q = ql q := by
  have hnil : (pids.filter fun i => s.waits q i && decide (i ∉ ql q)) = [] := by
    refine List.filter_eq_nil_iff.mpr fun i _ => ?_
    simp only [Bool.and_eq_true, decide_eq_true_eq, not_and, not_not]
    exact h i
  rw [joined, hnil, List.append_nil]

/-- The one process that a queue misses is appended to it. -/
theorem joined_eq_append {ql : ReadyQueue → List Int} {q : ReadyQueue} (h : OkWith s ql)
    {o : Option Int} (ho : ∀ i, s.waits q i = true ∧ i ∉ ql q ↔ i ∈ o) :
    joined s ql q = ql q ++ o.toList := by
  have hperm : (pids.filter fun i => s.waits q i && decide (i ∉ ql q)).Perm o.toList := by
    refine (List.perm_ext_iff_of_nodup (pids_nodup.filter _) ?_).mpr fun i => ?_
    · cases o <;> simp
    rw [List.mem_filter, Option.mem_toList, Bool.and_eq_true, decide_eq_true_eq, ho]
    refine ⟨fun hi => hi.2, fun hi => ⟨?_, hi⟩⟩
    have hw := ((ho i).mpr hi).1
    obtain ⟨h0, -, pr, hp, -, -⟩ := waits_iff.mp hw
    obtain ⟨hge, hlt, -, -⟩ := h.table i pr hp
    exact mem_pids.mpr ⟨by omega, hlt⟩
  rw [joined]
  congr 1
  cases o with
  | none => exact hperm.eq_nil
  | some a => exact List.perm_singleton.mp hperm

theorem type_inj {q q' : ReadyQueue} (h : q.type = q'.type) : q = q' := by
  cases q <;> cases q' <;> simp_all [ReadyQueue.type]

/-- The queue from which the next process of a line comes. -/
theorem Line.choice_eq (hl : Line s t x) {q : ReadyQueue}
    (hc : choice (joined s s.ready) s.flag = some q) : q = t := by
  obtain ⟨pr, hp, hr, ht⟩ := hl.runs
  have hflag : s.flag = t.type := (flag_of_runs (hl.current ▸ hp) hr).trans ht
  have hle : q.type ≤ t.type := by
    rw [hflag] at hc
    exact choice_le_flag hc (ReadyQueue.type_cases t).1
  have hge : ¬ q.type < t.type := fun hlt => choice_ne_nil hc (hl.higher q hlt)
  exact type_inj (le_antisymm hle (not_lt.mp hge))

/-- Who waits when `n` has taken the processor from the current process: everybody else who
waited, and the process that had it. -/
theorem Line.waits_after (h : Ok s) (hl : Line s t x) (hsame : Same s s') {n : Int}
    (hcur : s'.procCurrent = n) (hn : n ∈ joined s s.ready t) {q : ReadyQueue} {i : Int} :
    s'.waits q i = true ↔ i ∈ joined s s.ready q ∧ i ≠ n ∨ i = x.1 ∧ q = t := by
  obtain ⟨prc, hpc, hrc, htc⟩ := hl.runs
  have hnc : n ≠ x.1 := hl.current ▸ (waits_iff.mp ((mem_joined h).mp hn)).2.1
  rw [mem_joined h, waits_iff, waits_iff, hcur, hl.current]
  constructor
  · rintro ⟨h0, hne, pr', hp', hr', ht'⟩
    obtain ⟨pr, hp, ht, hr, -⟩ := hsame.symm.get hp'
    by_cases hi : i = x.1
    · subst hi
      obtain rfl := Option.some.inj (hpc.symm.trans hp)
      exact .inr ⟨rfl, type_inj (ht'.symm.trans (ht.symm.trans htc))⟩
    · exact .inl ⟨⟨h0, hi, pr, hp, hr.trans hr', ht.trans ht'⟩, hne⟩
  · rintro (⟨⟨h0, -, pr, hp, hr, ht⟩, hne⟩ | ⟨rfl, rfl⟩)
    · obtain ⟨pr', hp', ht', hr', -⟩ := hsame.get hp
      exact ⟨h0, hne, pr', hp', hr'.trans hr, ht'.trans ht⟩
    · obtain ⟨pr', hp', ht', hr', -⟩ := hsame.get hpc
      have := hl.pos
      exact ⟨by omega, hnc.symm, pr', hp', hr'.trans hrc, ht'.trans htc⟩

/-- The first process of the line has taken the processor, and the one that had it was put back:
the first of `rest` is missed by the queue until the next call. -/
theorem Line.taken {c n : Int} {rest : List Int} (h : Ok s) (hl : Line s t (c, n :: rest))
    (hsame : Same s s') (hcur : s'.procCurrent = n)
    (hok' : OkWith s' (Function.update (joined s s.ready) t (rest.tail ++ [c]))) :
    Line s' t (turn (c, n :: rest)) := by
  have hq : joined s s.ready t = n :: rest := hl.queue
  have hn : n ∈ joined s s.ready t := by rw [hq]; simp
  have hwaits : ∀ {q : ReadyQueue} {i : Int},
      s'.waits q i = true ↔ i ∈ joined s s.ready q ∧ i ≠ n ∨ i = c ∧ q = t :=
    hl.waits_after h hsame hcur hn
  have hnd : (n :: rest).Nodup := hq ▸ joined_nodup h t
  have hc' : c ∉ n :: rest := by
    rw [← hq, mem_joined_iff h, hl.current]
    exact fun hcc => hcc.1 rfl
  obtain ⟨hn0, -, prn, hpn, hrn, htn⟩ := waits_iff.mp ((mem_joined h).mp hn)
  obtain ⟨prn', hpn', htn', hrn', -⟩ := hsame.get hpn
  have hready := hok'.ready_eq
  refine ⟨hcur, ?_, ⟨prn', hpn', hrn'.trans hrn, htn'.trans htn⟩, fun q hlt => ?_, ?_⟩
  · have := (h.table n prn hpn).1
    show 1 ≤ n
    omega
  · have hne : q ≠ t := fun e => absurd (e ▸ hlt) (lt_irrefl _)
    rw [hready, joined_eq_self fun i hi => ?_, Function.update_of_ne hne, hl.higher q hlt]
    rw [Function.update_of_ne hne]
    exact (hwaits.mp hi).elim (fun hi => hi.1) fun hi => absurd hi.2 hne
  · rw [hready, joined_eq_append (o := rest.head?) hok' fun i => ?_, Function.update_self]
    · show _ = rest.tail ++ c :: rest.head?.toList
      simp
    · rw [Function.update_self, hwaits, hq]
      cases rest with
      | nil => grind
      | cons b rest => grind

/-- **A call of `schedule`** while nobody of higher priority is ready is a turn. -/
theorem Line.schedule (h : Ok s) (hl : Line s t x) (hs : s.schedule = some s') :
    Line s' t (turn x) := by
  obtain ⟨s₁, ql', hs₁, hsame, hok', hsch⟩ := schedule_spec h
  obtain rfl := Option.some.inj (hs.symm.trans hs₁)
  obtain ⟨pr, hp, hr, ht⟩ := hl.runs
  have hruns : s.CurrentRuns := ⟨pr, hl.current ▸ hp, hr⟩
  have hready : s'.ready = ql' := hok'.ready_eq
  obtain ⟨c, l⟩ := x
  simp only [] at hp
  cases hsch with
  | idle hr' => exact absurd hruns hr'
  | switch q n rest hr' =>
      have h0 := hr'.resolve_left (not_not.mpr hruns)
      have := hl.pos
      rw [← hl.current, h0] at this
      omega
  | stay _ hc hcur =>
      -- nobody waits
      have hnil : joined s s.ready t = [] := by
        by_contra hne
        have := choice_none hc hne
        rw [flag_of_runs (hl.current ▸ hp) hr, ht] at this
        omega
      obtain rfl : l = [] := hl.queue.symm.trans hnil
      have hok₁ : OkWith s' (joined s s.ready) := hok'
      have hjoined : ∀ q, joined s' (joined s s.ready) q = joined s s.ready q := fun q =>
        joined_eq_self fun i hi => (mem_joined h).mpr (by rwa [hsame.waits hcur] at hi)
      obtain ⟨pr', hp', ht', hr', -⟩ := hsame.get hp
      exact {
        current := hcur.trans hl.current
        pos := hl.pos
        runs := ⟨pr', hp', hr'.trans hr, ht'.trans ht⟩
        higher := fun q hq => by rw [hready, hjoined]; exact hl.higher q hq
        queue := by rw [hready, hjoined]; exact hnil }
  | preempt q n rest t' pr' hpr' hr' ht' h0 hc hq hcur =>
      obtain rfl := hl.choice_eq hc
      rw [hl.current] at hpr'
      obtain rfl := Option.some.inj (hp.symm.trans hpr')
      obtain rfl : t' = q := type_inj (ht'.symm.trans ht)
      obtain rfl : l = n :: rest := hl.queue.symm.trans hq
      rw [Function.update_self, Function.update_idem, hl.current] at hok'
      exact hl.taken h hsame hcur hok'

end Mks.Sched
