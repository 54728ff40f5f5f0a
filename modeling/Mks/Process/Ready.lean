import Mks.Process.Sched

set_option autoImplicit false

/-! # The ready queues

The invariant of the scheduler state and the effect of every scheduler function on the three
ready queues as lists. `OkWith s ql` says that the queues of `s` spell the lists `ql`;
`schedule_spec` gives the lists after `schedule` from the lists before it, and is the only fact
about `schedule` that later modules use.
-/

namespace Mks

open Linked

/-- What the scheduler decides on: everything but the counters. -/
def ProcStruct.status (pr : ProcStruct) : Int × Int × Int := (pr.procType, pr.state, pr.pid)

theorem ReadyQueue.ofType_eq {t : Int} {q : ReadyQueue} :
    ReadyQueue.ofType t = some q ↔ t = q.type := by
  unfold ReadyQueue.ofType
  cases q <;> simp only [ReadyQueue.type] <;> grind

namespace Sched

/-- The processes in queue `q`, from its head. -/
def ready (s : Sched) (q : ReadyQueue) : List Int :=
  toList s.links.next NR_PROCS.toNat (s.links.head q)

/-- Process `i` is ready to run and belongs in queue `q`. -/
def waits (s : Sched) (q : ReadyQueue) (i : Int) : Bool :=
  i ≠ 0 && i ≠ s.procCurrent &&
    (s.proc i).any fun pr => pr.state = RUNNING && pr.procType = q.type

/-- Only counters differ in the two process tables. -/
def Same (s s' : Sched) : Prop :=
  ∀ i, (s'.proc i).map ProcStruct.status = (s.proc i).map ProcStruct.status

/-- The queues of `s` are the lists `ql`, and every process in them is ready to run. -/
structure OkWith (s : Sched) (ql : ReadyQueue → List Int) : Prop where
  /-- Pids are the indices of the table, and every process has a type. -/
  table : ∀ i pr, s.proc i = some pr →
    0 ≤ i ∧ i < NR_PROCS ∧ pr.pid = i ∧ ∃ q : ReadyQueue, pr.procType = q.type
  /-- The idle process is always runnable, and is typed as a user process. -/
  idle : ∃ pr, s.proc 0 = some pr ∧ pr.state = RUNNING ∧ pr.procType = 3
  current : ∃ pr, s.proc s.procCurrent = some pr
  shape : Shape s.links ql
  member : ∀ q, ∀ i ∈ ql q, s.waits q i

/-- The scheduler invariant. -/
def Ok (s : Sched) : Prop := OkWith s s.ready

/-! ## Readiness -/

theorem waits_iff {s : Sched} {q : ReadyQueue} {i : Int} :
    s.waits q i = true ↔ i ≠ 0 ∧ i ≠ s.procCurrent ∧
      ∃ pr, s.proc i = some pr ∧ pr.state = RUNNING ∧ pr.procType = q.type := by
  unfold waits
  cases s.proc i <;> simp [and_assoc]

theorem Same.trans {s s' s'' : Sched} (h : Same s s') (h' : Same s' s'') : Same s s'' :=
  fun i => (h' i).trans (h i)

theorem Same.symm {s s' : Sched} (h : Same s s') : Same s' s := fun i => (h i).symm

theorem Same.get {s s' : Sched} (h : Same s s') {i : Int} {pr : ProcStruct}
    (hp : s.proc i = some pr) :
    ∃ pr', s'.proc i = some pr' ∧ pr'.procType = pr.procType ∧ pr'.state = pr.state ∧
      pr'.pid = pr.pid := by
  have hi := h i
  rw [hp] at hi
  obtain ⟨pr', hpr', he⟩ := Option.map_eq_some_iff.mp hi
  simp only [ProcStruct.status, Prod.mk.injEq] at he
  exact ⟨pr', hpr', he⟩

theorem Same.waits {s s' : Sched} (h : Same s s') (hc : s'.procCurrent = s.procCurrent)
    (q : ReadyQueue) (i : Int) : s'.waits q i = s.waits q i := by
  have key : ∀ {s s' : Sched}, Same s s' → s'.procCurrent = s.procCurrent →
      s.waits q i = true → s'.waits q i = true := by
    intro s s' h hc hw
    obtain ⟨h0, hcur, pr, hp, hr, ht⟩ := waits_iff.mp hw
    obtain ⟨pr', hp', ht', hs', -⟩ := h.get hp
    exact waits_iff.mpr ⟨h0, hc ▸ hcur, pr', hp', hs'.trans hr, ht'.trans ht⟩
  exact Bool.eq_iff_iff.mpr ⟨key h.symm hc.symm, key h hc⟩

/-- A process waits in one queue only, that of its type. -/
theorem waits_type {s : Sched} {q q' : ReadyQueue} {i : Int} (h : s.waits q i = true)
    (h' : s.waits q' i = true) : q = q' := by
  obtain ⟨-, -, pr, hp, -, ht⟩ := waits_iff.mp h
  obtain ⟨-, -, pr', hp', -, ht'⟩ := waits_iff.mp h'
  obtain rfl := Option.some.inj (hp.symm.trans hp')
  have : q.type = q'.type := ht.symm.trans ht'
  cases q <;> cases q' <;> simp_all [ReadyQueue.type]

theorem mem_pids {i : Int} : i ∈ pids ↔ 1 ≤ i ∧ i < NR_PROCS := by
  simp only [pids, List.mem_map, List.mem_range, NR_PROCS]
  constructor
  · rintro ⟨k, hk, rfl⟩
    omega
  · intro h
    exact ⟨(i - 1).toNat, by omega, by omega⟩

theorem pids_nodup : pids.Nodup :=
  List.nodup_range.map fun a b h => by simpa using h

theorem OkWith.mem_pids {s : Sched} {ql : ReadyQueue → List Int} (h : OkWith s ql)
    {q : ReadyQueue} {i : Int} (hi : i ∈ ql q) : i ∈ pids := by
  obtain ⟨h0, -, pr, hp, -, -⟩ := waits_iff.mp (h.member q i hi)
  obtain ⟨hge, hlt, -, -⟩ := h.table i pr hp
  exact Sched.mem_pids.mpr ⟨by omega, hlt⟩

/-- A ready queue has fewer than `NR_PROCS` elements, so its list is what `ready` computes. -/
theorem OkWith.length_le {s : Sched} {ql : ReadyQueue → List Int} (h : OkWith s ql)
    (q : ReadyQueue) : (ql q).length ≤ NR_PROCS.toNat := by
  have hsub : ql q ⊆ pids := fun i hi => h.mem_pids hi
  have hlen := ((h.shape.queue q).nodup.subperm hsub).length_le
  have : pids.length = 63 := by simp [pids]
  exact hlen.trans (this ▸ by decide)

theorem OkWith.ready_eq {s : Sched} {ql : ReadyQueue → List Int} (h : OkWith s ql) :
    s.ready = ql := funext fun q => toList_eq (h.shape.queue q).seg (h.length_le q)

theorem OkWith.ok {s : Sched} {ql : ReadyQueue → List Int} (h : OkWith s ql) : Ok s := by
  rw [Ok, h.ready_eq]; exact h

theorem OkWith.table_of {s s' : Sched} {ql : ReadyQueue → List Int} (h : OkWith s ql)
    (hs : Same s s') (i : Int) (pr : ProcStruct) (hp : s'.proc i = some pr) :
    0 ≤ i ∧ i < NR_PROCS ∧ pr.pid = i ∧ ∃ q : ReadyQueue, pr.procType = q.type := by
  obtain ⟨pr', hp', ht, -, hpid⟩ := hs.symm.get hp
  have := h.table i pr' hp'
  rwa [ht, hpid] at this

theorem OkWith.idle_of {s s' : Sched} {ql : ReadyQueue → List Int} (h : OkWith s ql)
    (hs : Same s s') : ∃ pr, s'.proc 0 = some pr ∧ pr.state = RUNNING ∧ pr.procType = 3 := by
  obtain ⟨pr, hp, hr, ht⟩ := h.idle
  obtain ⟨pr', hp', ht', hs', -⟩ := hs.get hp
  exact ⟨pr', hp', hs'.trans hr, ht'.trans ht⟩

/-- The invariant is kept when only counters and link fields change, and the new links spell
lists of ready processes. -/
theorem OkWith.relink {s s' : Sched} {ql ql' : ReadyQueue → List Int} (h : OkWith s ql)
    (hs : Same s s') (hc : s'.procCurrent = s.procCurrent) (hshape : Shape s'.links ql')
    (hmem : ∀ q, ∀ i ∈ ql' q, s.waits q i) : OkWith s' ql' where
  table := h.table_of hs
  idle := h.idle_of hs
  current := by
    obtain ⟨pr, hp⟩ := h.current
    obtain ⟨pr', hp', -⟩ := hs.get hp
    exact ⟨pr', hc ▸ hp'⟩
  shape := hshape
  member q i hi := by rw [hs.waits hc]; exact hmem q i hi

/-! ## `add_running_proc` -/

/-- The scan of `add_running_proc` tells whether the process is in the queue. -/
theorem onQueue_spec {s : Sched} {ql : ReadyQueue → List Int} (h : OkWith s ql)
    (q : ReadyQueue) (i : Int) : s.onQueue q i = some (decide (i ∈ ql q)) := by
  have hhit : ∀ a ∈ ql q, ((s.proc a).any fun pr => decide (pr.pid = i)) = decide (a = i) := by
    intro a ha
    obtain ⟨-, -, pr, hp, -, -⟩ := waits_iff.mp (h.member q a ha)
    rw [hp, Option.any_some, (h.table a pr hp).2.2.1]
  obtain ⟨r, hr, hf⟩ := find_spec (fun p => (s.proc p).any fun pr => decide (pr.pid = i)) none
    (h.shape.queue q).seg (h.length_le q)
  unfold onQueue
  rw [hr]
  cases hf with
  | miss t hm =>
      have : i ∉ ql q := fun hi => by
        have := hm i hi
        rw [hhit i hi] at this
        simp at this
      simp [this]
  | hit l₁ a l₂ hl ha hm =>
      have hmem : a ∈ ql q := by rw [hl]; simp
      rw [hhit a hmem, decide_eq_true_eq] at ha
      subst ha
      simp [hmem]

/-- The lists after the loop of `add_running_proc` has seen pid `i`. -/
def joinOne (s : Sched) (ql : ReadyQueue → List Int) (i : Int) (q : ReadyQueue) : List Int :=
  if s.waits q i ∧ i ∉ ql q then ql q ++ [i] else ql q

theorem addProc_spec {s : Sched} {ql : ReadyQueue → List Int} (h : OkWith s ql) {i : Int}
    (hi : 1 ≤ i) :
    ∃ s', s.addProc i = some s' ∧ s'.proc = s.proc ∧ s'.procCurrent = s.procCurrent ∧
      OkWith s' (joinOne s ql i) := by
  -- in the first three cases nothing joins a queue
  have stay : (∀ q, s.waits q i = true → i ∈ ql q) → OkWith s (joinOne s ql i) := by
    intro hno
    have : joinOne s ql i = ql := by
      funext q
      exact if_neg fun hw => hw.2 (hno q hw.1)
    rwa [this]
  unfold addProc
  cases hp : s.proc i with
  | none =>
      refine ⟨s, rfl, rfl, rfl, stay fun q hw => ?_⟩
      obtain ⟨-, -, pr, hp', -, -⟩ := waits_iff.mp hw
      rw [hp] at hp'; cases hp'
  | some pr =>
      by_cases hrun : pr.state = RUNNING ∧ i ≠ s.procCurrent
      · obtain ⟨-, -, -, q, hq⟩ := h.table i pr hp
        have hw : s.waits q i = true :=
          waits_iff.mpr ⟨by omega, hrun.2, pr, hp, hrun.1, hq⟩
        simp only [hrun, and_self, ne_eq, not_false_eq_true, if_true,
          ReadyQueue.ofType_eq.mpr hq, Option.bind_some]
        by_cases hin : i ∈ ql q
        · have hne : s.links.head q ≠ none := fun e => by
            rw [h.shape.head_eq_none] at e
            rw [e] at hin; cases hin
          refine ⟨s, by simp [hne, onQueue_spec h, hin], rfl, rfl, stay fun q' hw' => ?_⟩
          rwa [← waits_type hw hw']
        · have hjoin : joinOne s ql i = Function.update ql q (ql q ++ [i]) := by
            funext q'
            by_cases hqq : q' = q
            · subst hqq
              rw [Function.update_self, joinOne, if_pos ⟨hw, hin⟩]
            · rw [Function.update_of_ne hqq]
              exact if_neg fun hw' => hqq (waits_type hw'.1 hw)
          have hfresh : ∀ q', i ∉ ql q' := fun q' hi' => hin (by
            rwa [waits_type hw (h.member q' i hi')])
          have hmem : ∀ q', ∀ j ∈ joinOne s ql i q', s.waits q' j := by
            intro q' j hj
            unfold joinOne at hj
            split_ifs at hj with hc
            · rcases List.mem_append.mp hj with hj | hj
              · exact h.member q' j hj
              · rw [List.mem_singleton.mp hj]; exact hc.1
            · exact h.member q' j hj
          by_cases hhead : s.links.head q = none
          · have hnil : ql q = [] := (h.shape.head_eq_none q).mp hhead
            refine ⟨((s.setHead q (some i)).setTail q (some i)).setNext i none,
              by simp [hhead], rfl, rfl, h.relink (fun _ => rfl) rfl ?_ hmem⟩
            rw [hjoin]
            refine h.shape.append_of q hfresh ?_ ?_ ?_ ?_ ?_ ?_ ?_ <;>
              simp +contextual [setHead, setTail, setNext, hnil, Function.update_of_ne]
          · obtain ⟨t, ht⟩ : ∃ t, s.links.tail q = some t := by
              have hne : ql q ≠ [] := fun e => hhead ((h.shape.head_eq_none q).mpr e)
              exact ⟨_, (h.shape.queue q).last.trans (List.getLast?_eq_some_getLast hne)⟩
            have hlast : (ql q).getLast? = some t := by rw [← (h.shape.queue q).last, ht]
            have hti : i ≠ t := fun e => hin (by rw [e]; exact List.mem_of_getLast? hlast)
            have hnil : ql q ≠ [] := fun e => by rw [e] at hlast; cases hlast
            refine ⟨((s.setNext t (some i)).setTail q (some i)).setNext i none,
              by simp [hhead, onQueue_spec h, hin, ht], rfl, rfl,
              h.relink (fun _ => rfl) rfl ?_ hmem⟩
            rw [hjoin]
            refine h.shape.append_of q hfresh ?_ ?_ ?_ ?_ ?_ ?_ ?_
            · exact fun q' _ => rfl
            · exact fun q' hne => Function.update_of_ne hne _ _
            · rw [if_neg hnil]; rfl
            · simp [setTail, setNext]
            · simp [setTail, setNext]
            · intro t' ht'
              rw [hlast] at ht'
              obtain rfl := Option.some.inj ht'
              simp [setTail, setNext, Function.update_of_ne hti.symm]
            · intro a hai hat
              have hat' : a ≠ t := fun e => hat (by rw [hlast, e])
              simp [setTail, setNext, Function.update_of_ne hai, Function.update_of_ne hat']
      · refine ⟨s, by simp only [if_neg hrun], rfl, rfl, stay fun q hw => ?_⟩
        obtain ⟨-, hc, pr', hp', hr, -⟩ := waits_iff.mp hw
        obtain rfl := Option.some.inj (hp.symm.trans hp')
        exact absurd ⟨hr, hc⟩ hrun

/-- The lists after `add_running_proc`: every ready process that was in no queue is appended, in
the order of the pids. -/
def joined (s : Sched) (ql : ReadyQueue → List Int) (q : ReadyQueue) : List Int :=
  ql q ++ pids.filter fun i => s.waits q i && decide (i ∉ ql q)

theorem addRunningProc_spec {s : Sched} {ql : ReadyQueue → List Int} (h : OkWith s ql) :
    ∃ s', s.addRunningProc = some s' ∧ s'.proc = s.proc ∧ s'.procCurrent = s.procCurrent ∧
      OkWith s' (joined s ql) := by
  -- the loop over any list of different pids, from any queues
  have key : ∀ (is : List Int), is.Nodup → (∀ i ∈ is, 1 ≤ i) →
      ∀ {s : Sched} {ql : ReadyQueue → List Int}, OkWith s ql →
      ∃ s', is.foldlM addProc s = some s' ∧ s'.proc = s.proc ∧
        s'.procCurrent = s.procCurrent ∧
        OkWith s' fun q => ql q ++ is.filter fun i => s.waits q i && decide (i ∉ ql q) := by
    intro is
    induction is with
    | nil => exact fun _ _ s ql h => ⟨s, rfl, rfl, rfl, by simpa using h⟩
    | cons i is ih =>
        intro hnd hpos s ql h
        obtain ⟨hni, hnd⟩ := List.nodup_cons.mp hnd
        obtain ⟨s₁, h₁, hp₁, hc₁, hok₁⟩ := addProc_spec h (hpos i (by simp))
        obtain ⟨s₂, h₂, hp₂, hc₂, hok₂⟩ := ih hnd (fun j hj => hpos j (by simp [hj])) hok₁
        refine ⟨s₂, ?_, hp₂.trans hp₁, hc₂.trans hc₁, ?_⟩
        · rw [List.foldlM_cons, h₁]; exact h₂
        · have hw : ∀ q j, s₁.waits q j = s.waits q j :=
            Same.waits (fun i => by rw [hp₁]) hc₁
          convert hok₂ using 2 with q
          -- `i` is not among the later pids, so its joining does not affect them
          have hrest : is.filter (fun j => s₁.waits q j && decide (j ∉ joinOne s ql i q))
              = is.filter fun j => s.waits q j && decide (j ∉ ql q) := by
            refine List.filter_congr fun j hj => ?_
            have hji : j ≠ i := fun e => hni (e ▸ hj)
            rw [hw, joinOne]
            split_ifs <;> simp [hji]
          rw [hrest, List.filter_cons, joinOne]
          by_cases hj : s.waits q i = true ∧ i ∉ ql q
          · rw [if_pos hj, if_pos (by simpa using hj), List.append_assoc, List.singleton_append]
          · rw [if_neg hj, if_neg (by simpa using hj)]
  exact key pids pids_nodup (fun i hi => (mem_pids.mp hi).1) h

/-- After `add_running_proc` the queues hold exactly the ready processes. -/
theorem mem_joined {s : Sched} {ql : ReadyQueue → List Int} (h : OkWith s ql) {q : ReadyQueue}
    {i : Int} : i ∈ joined s ql q ↔ s.waits q i = true := by
  simp only [joined, List.mem_append, List.mem_filter, Bool.and_eq_true, decide_eq_true_eq]
  constructor
  · rintro (hi | ⟨-, hw, -⟩)
    · exact h.member q i hi
    · exact hw
  · intro hw
    by_cases hi : i ∈ ql q
    · exact .inl hi
    · obtain ⟨h0, -, pr, hp, -, -⟩ := waits_iff.mp hw
      obtain ⟨hge, hlt, -, -⟩ := h.table i pr hp
      exact .inr ⟨mem_pids.mpr ⟨by omega, hlt⟩, hw, hi⟩

/-! ## `schedule` -/

/-- The current process is RUNNING. -/
def CurrentRuns (s : Sched) : Prop := ∃ pr, s.proc s.procCurrent = some pr ∧ pr.state = RUNNING

/-- The value of `flag` in `schedule`: the type of a running current process, else `3`. -/
def flag (s : Sched) : Int :=
  match s.proc s.procCurrent with
  | some cur => if cur.state ≠ RUNNING then 3 else cur.procType
  | none => 3

/-- The queue that `pick` takes the next process from. -/
def choice (ql : ReadyQueue → List Int) (flag : Int) : Option ReadyQueue :=
  if ql .task ≠ [] then some .task
  else if ql .server ≠ [] ∧ flag > 1 then some .server
  else if ql .user ≠ [] ∧ flag > 2 then some .user
  else none

theorem choice_ne_nil {ql : ReadyQueue → List Int} {flag : Int} {q : ReadyQueue}
    (h : choice ql flag = some q) : ql q ≠ [] := by
  unfold choice at h
  split_ifs at h <;> simp_all

/-- What `schedule` does with the queues `ql` it finds after `add_running_proc`. -/
inductive Scheduled (s : Sched) (ql : ReadyQueue → List Int) (s' : Sched) :
    (ReadyQueue → List Int) → Prop
  /-- The running process keeps the processor: no process may run before it. -/
  | stay (hr : s.CurrentRuns) (hc : choice ql s.flag = none)
      (hcur : s'.procCurrent = s.procCurrent) : Scheduled s ql s' ql
  /-- Nothing is runnable. -/
  | idle (hr : ¬ s.CurrentRuns) (hc : choice ql s.flag = none) (hcur : s'.procCurrent = 0) :
      Scheduled s ql s' ql
  /-- The first process of a queue runs; the current one is asleep or is the idle process. -/
  | switch (q : ReadyQueue) (n : Int) (rest : List Int) (hr : ¬ s.CurrentRuns ∨ s.procCurrent = 0)
      (hc : choice ql s.flag = some q) (hq : ql q = n :: rest) (hcur : s'.procCurrent = n) :
      Scheduled s ql s' (Function.update ql q rest)
  /-- The first process of a queue preempts the current one, which goes to the end of its own
  queue `t`; what is then the first element of `t` falls out of the queue. -/
  | preempt (q : ReadyQueue) (n : Int) (rest : List Int) (t : ReadyQueue) (pr : ProcStruct)
      (hpr : s.proc s.procCurrent = some pr) (hr : pr.state = RUNNING)
      (ht : pr.procType = t.type) (h0 : s.procCurrent ≠ 0)
      (hc : choice ql s.flag = some q) (hq : ql q = n :: rest) (hcur : s'.procCurrent = n) :
      Scheduled s ql s' (Function.update (Function.update ql q rest) t
        ((Function.update ql q rest t).tail ++ [s.procCurrent]))

theorem pick_none {s : Sched} {ql : ReadyQueue → List Int} (h : OkWith s ql) {flag : Int}
    (hc : choice ql flag = none) : s.pick flag = some (0, s) := by
  unfold choice at hc
  unfold pick
  simp only [ne_eq, h.shape.head_eq_none]
  split_ifs at hc ⊢
  rfl

theorem pick_some {s : Sched} {ql : ReadyQueue → List Int} (h : OkWith s ql) {flag : Int}
    {q : ReadyQueue} {n : Int} {rest : List Int} (hc : choice ql flag = some q)
    (hq : ql q = n :: rest) :
    s.pick flag = some (n, { s with links := s.links.pop q n }) := by
  have htake : s.takeHead q = some (n, { s with links := s.links.pop q n }) := by
    have hw := h.member q n (by rw [hq]; simp)
    obtain ⟨-, -, pr, hp, -, -⟩ := waits_iff.mp hw
    have hhead : s.links.head q = some n := by rw [h.shape.head, hq]; rfl
    rw [takeHead, hhead, Option.bind_some, hp, Option.map_some, (h.table n pr hp).2.2.1]
  rw [← htake]
  unfold choice at hc
  unfold pick
  simp only [ne_eq, h.shape.head_eq_none]
  split_ifs at hc ⊢ <;> simp_all

/-- Writing a counter of an existing process. -/
theorem modify_spec {s : Sched} {p : Int} {pr : ProcStruct} (hp : s.proc p = some pr)
    {f : ProcStruct → ProcStruct} (hf : (f pr).status = pr.status) :
    ∃ s', s.modify p f = some s' ∧ Same s s' ∧ s'.links = s.links ∧
      s'.procCurrent = s.procCurrent := by
  refine ⟨{ s with proc := Function.update s.proc p (some (f pr)) }, by simp [modify, hp], ?_, rfl, rfl⟩
  intro i
  by_cases hi : i = p
  · subst hi
    simp [hp, hf]
  · simp [Function.update_of_ne hi]

theorem setState_inv {s s' : Sched} {p st : Int} (hs : s.setState p st = some s') :
    ∃ pr, s.proc p = some pr ∧ s'.proc = Function.update s.proc p (some { pr with state := st }) ∧
      s'.links = s.links ∧ s'.procCurrent = s.procCurrent := by
  obtain ⟨pr, hpr, hs'⟩ := Option.map_eq_some_iff.mp hs
  subst hs'
  exact ⟨pr, hpr, rfl, rfl, rfl⟩

/-- The link fields after the current process went to the end of queue `t`. -/
theorem requeue_spec {s : Sched} {ql : ReadyQueue → List Int} (h : Shape s.links ql)
    {t : ReadyQueue} {currentType : Int} (ht : currentType = t.type)
    (hcur : ∀ q, s.procCurrent ∉ ql q) :
    ∃ s', s.requeue currentType = some s' ∧ s'.proc = s.proc ∧
      s'.procCurrent = s.procCurrent ∧
      Shape s'.links (Function.update ql t ((ql t).tail ++ [s.procCurrent])) := by
  unfold requeue
  rw [ReadyQueue.ofType_eq.mpr ht]
  simp only []
  set cur := s.procCurrent with hc
  cases hl : ql t with
  | nil =>
      have hhead : s.links.head t = none := (h.head_eq_none t).mpr hl
      rw [hhead]
      refine ⟨((s.setHead t (some cur)).setTail t (some cur)).setNext cur none, rfl, rfl, rfl, ?_⟩
      have happ : Shape (((s.setHead t (some cur)).setTail t (some cur)).setNext cur none).links
          (Function.update ql t (ql t ++ [cur])) := by
        refine h.append_of t hcur ?_ ?_ ?_ ?_ ?_ ?_ ?_ <;>
          simp +contextual [setHead, setTail, setNext, hl, Function.update_of_ne]
      rwa [hl] at happ
  | cons a l =>
      have hhead : s.links.head t = some a := by rw [h.head, hl]; rfl
      obtain ⟨z, hz⟩ : ∃ z, (ql t).getLast? = some z :=
        ⟨_, List.getLast?_eq_some_getLast (by rw [hl]; simp)⟩
      have htail : s.links.tail t = some z := by rw [(h.queue t).last, hz]
      have hzc : z ≠ cur := fun e => hcur t (by rw [← e]; exact List.mem_of_getLast? hz)
      have hac : a ≠ cur := fun e => hcur t (by rw [hl, ← e]; simp)
      simp only [hhead, htail, Option.bind_some]
      -- first the queue with `cur` appended and the head not yet advanced
      let l₁ : Links Int ReadyQueue :=
        { next := Function.update (Function.update s.links.next z (some cur)) cur none
          head := s.links.head
          tail := Function.update s.links.tail t (some cur) }
      have h₁ : Shape l₁ (Function.update ql t (ql t ++ [cur])) := by
        refine h.append_of t hcur ?_ ?_ ?_ ?_ ?_ ?_ ?_
        · exact fun q' _ => rfl
        · exact fun q' hne => Function.update_of_ne hne _ _
        · rw [if_neg (by rw [hl]; simp)]
        · simp [l₁]
        · simp [l₁]
        · intro z' hz'
          rw [hz] at hz'
          obtain rfl := Option.some.inj hz'
          simp [l₁, Function.update_of_ne hzc]
        · intro b hb hbz
          have hbz' : b ≠ z := fun e => hbz (by rw [hz, e])
          simp [l₁, Function.update_of_ne hb, Function.update_of_ne hbz']
      have hl₁ : Function.update ql t (ql t ++ [cur]) t = a :: (l ++ [cur]) := by
        rw [Function.update_self, hl, List.cons_append]
      have h₂ := h₁.pop t hl₁
      rw [Function.update_idem] at h₂
      have hnext : l₁.next a ≠ none := by
        have := (h₁.queue t).seg
        rw [hl₁] at this
        rw [this.2.head_eq]
        cases l <;> simp
      have hhead₁ : ((s.setNext z (some cur)).setTail t (some cur)).links.head t = some a := hhead
      rw [hhead₁]
      have hfin : ((((s.setNext z (some cur)).setTail t (some cur)).setHead t
          (Function.update s.links.next z (some cur) a)).setNext cur none).links
          = l₁.pop t a := by
        rw [Links.pop, if_neg hnext]
        simp [l₁, setHead, setTail, setNext, Function.update_of_ne hac]
      refine ⟨_, rfl, rfl, rfl, ?_⟩
      show Shape ((((s.setNext z (some cur)).setTail t (some cur)).setHead t
          (Function.update s.links.next z (some cur) a)).setNext cur none).links
        (Function.update ql t (l ++ [cur]))
      rw [hfin]
      exact h₂

/-- The switch to `n`, which has left the queues. -/
theorem switchTo_spec {s : Sched} {ql : ReadyQueue → List Int} {n : Int} (h : Shape s.links ql)
    {pr : ProcStruct} (hp : s.proc n = some pr) (hn : ∀ q, n ∉ ql q) (counter : Int) :
    ∃ s', s.switchTo n counter = some s' ∧ Same s s' ∧ s'.procCurrent = n ∧ Shape s'.links ql := by
  obtain ⟨s', hs', hsame, hl, -⟩ := modify_spec hp (f := fun pr => { pr with counter := counter }) rfl
  refine ⟨{ s'.setNext n none with procCurrent := n }, by rw [switchTo, hs']; rfl, hsame, rfl, ?_⟩
  exact (hl ▸ h : Shape s'.links ql).set_next hn none

/-- The invariant after a switch to `n`. -/
theorem OkWith.switched {s s' : Sched} {ql ql' : ReadyQueue → List Int} (h : OkWith s ql)
    (hs : Same s s') {n : Int} {pr : ProcStruct} (hn : s.proc n = some pr)
    (hc : s'.procCurrent = n) (hshape : Shape s'.links ql')
    (hmem : ∀ q, ∀ i ∈ ql' q, i ≠ n ∧ i ≠ 0 ∧
      ∃ pr, s.proc i = some pr ∧ pr.state = RUNNING ∧ pr.procType = q.type) : OkWith s' ql' where
  table := h.table_of hs
  idle := h.idle_of hs
  current := by
    obtain ⟨pr', hp', -⟩ := hs.get hn
    exact ⟨pr', hc ▸ hp'⟩
  shape := hshape
  member q i hi := by
    obtain ⟨hin, h0, pr, hp, hr, ht⟩ := hmem q i hi
    obtain ⟨pr', hp', ht', hs', -⟩ := hs.get hp
    exact waits_iff.mpr ⟨h0, hc ▸ hin, pr', hp', hs'.trans hr, ht'.trans ht⟩

/-- Who is left in the queues when `n` has left queue `q`. -/
theorem mem_popped {links : Links Int ReadyQueue} {ql : ReadyQueue → List Int}
    (h : Shape links ql) {q : ReadyQueue} {n : Int} {rest : List Int} (hq : ql q = n :: rest)
    {q' : ReadyQueue} {i : Int} (hi : i ∈ Function.update ql q rest q') : i ∈ ql q' ∧ i ≠ n := by
  by_cases hqq : q' = q
  · subst hqq
    have hnd := (h.queue q').nodup
    rw [hq] at hnd
    rw [Function.update_self] at hi
    exact ⟨by rw [hq]; simp [hi], fun e => (List.nodup_cons.mp hnd).1 (e ▸ hi)⟩
  · rw [Function.update_of_ne hqq] at hi
    refine ⟨hi, fun e => hqq ?_⟩
    exact h.disjoint q' q n (e ▸ hi) (by rw [hq]; simp)

/-- Who is in the queues when `c` has been put back into queue `t`. -/
theorem mem_requeued {ql : ReadyQueue → List Int} {t q : ReadyQueue} {c i : Int}
    (hi : i ∈ Function.update ql t ((ql t).tail ++ [c]) q) : i ∈ ql q ∨ q = t ∧ i = c := by
  by_cases hqt : q = t
  · subst hqt
    rw [Function.update_self] at hi
    rcases List.mem_append.mp hi with hi | hi
    · exact .inl (List.mem_of_mem_tail hi)
    · exact .inr ⟨rfl, List.mem_singleton.mp hi⟩
  · rw [Function.update_of_ne hqt] at hi
    exact .inl hi

/-- **What `schedule` does.** It always returns; it runs `add_running_proc`, and then one of the
four cases of `Scheduled`. Nothing changes in the process table but counters. -/
theorem schedule_spec {s : Sched} {ql : ReadyQueue → List Int} (h : OkWith s ql) :
    ∃ s' ql', s.schedule = some s' ∧ Same s s' ∧ OkWith s' ql' ∧
      Scheduled s (joined s ql) s' ql' := by
  obtain ⟨cur, hcur⟩ := h.current
  obtain ⟨s₁, h₁, hp₁, hc₁, hok₁⟩ := addRunningProc_spec h
  have hsame₁ : Same s s₁ := fun i => by rw [hp₁]
  have hcur₁ : s₁.proc s₁.procCurrent = some cur := by rw [hp₁, hc₁, hcur]
  have hpid : cur.pid = s.procCurrent := (h.table _ _ hcur).2.2.1
  have hflag : (if cur.state ≠ RUNNING then 3 else cur.procType) = s.flag := by
    simp only [flag, hcur]
  have hruns : s.CurrentRuns ↔ cur.state = RUNNING :=
    ⟨fun ⟨pr, hp, hr⟩ => Option.some.inj (hcur.symm.trans hp) ▸ hr, fun hr => ⟨cur, hcur, hr⟩⟩
  have hwaits : ∀ q i, i ∈ joined s ql q → s.waits q i = true := fun q i hi => (mem_joined h).mp hi
  unfold schedule
  rw [hcur, Option.bind_some, h₁, Option.bind_some, hflag]
  cases hch : choice (joined s ql) s.flag with
  | none =>
      rw [pick_none hok₁ hch, Option.bind_some]
      simp only [ne_eq, true_and, not_true_eq_false, false_and, if_false]
      by_cases hr : cur.state = RUNNING
      · rw [if_pos hr]
        by_cases h0 : cur.pid = 0
        · rw [if_neg (not_not.mpr h0)]
          exact ⟨s₁, joined s ql, rfl, hsame₁, hok₁, .stay (hruns.mpr hr) hch hc₁⟩
        · rw [if_pos h0]
          obtain ⟨s', hs', hsame, hl, hc'⟩ := modify_spec hcur₁
            (f := fun pr => { pr with counter := COUNTER }) rfl
          refine ⟨s', joined s ql, hs', hsame₁.trans hsame, ?_,
            .stay (hruns.mpr hr) hch (hc'.trans hc₁)⟩
          exact hok₁.relink hsame hc' (hl ▸ hok₁.shape) hok₁.member
      · rw [if_neg hr, if_pos hr]
        obtain ⟨idle, hidle, -⟩ := hok₁.idle
        have hno : ∀ q, (0 : Int) ∉ joined s ql q := fun q hi =>
          (waits_iff.mp (hwaits q 0 hi)).1 rfl
        obtain ⟨s', hs', hsame, hc', hshape⟩ := switchTo_spec hok₁.shape hidle hno 0
        refine ⟨s', joined s ql, hs', hsame₁.trans hsame, ?_, .idle (mt hruns.mp hr) hch hc'⟩
        refine hok₁.switched hsame hidle hc' hshape fun q i hi => ?_
        obtain ⟨hi0, -, pr, hp, hrun, ht⟩ := waits_iff.mp (hok₁.member q i hi)
        exact ⟨hi0, hi0, pr, hp, hrun, ht⟩
  | some q =>
      obtain ⟨n, rest, hq⟩ := List.exists_cons_of_ne_nil (choice_ne_nil hch)
      have hn : s.waits q n = true := hwaits q n (by rw [hq]; simp)
      obtain ⟨hn0, hncur, pr, hpn, hrn, htn⟩ := waits_iff.mp hn
      have hpn₁ : s₁.proc n = some pr := by rw [hp₁, hpn]
      have hpop := hok₁.shape.pop q hq
      have hmem : ∀ q', ∀ i ∈ Function.update (joined s ql) q rest q', i ≠ n ∧ i ≠ 0 ∧
          ∃ pr, s₁.proc i = some pr ∧ pr.state = RUNNING ∧ pr.procType = q'.type := by
        intro q' i hi
        obtain ⟨hin, hne⟩ := mem_popped hok₁.shape hq hi
        obtain ⟨hi0, -, pr, hp, hrun, ht⟩ := waits_iff.mp (hok₁.member q' i hin)
        exact ⟨hne, hi0, pr, hp, hrun, ht⟩
      rw [pick_some hok₁ hch hq, Option.bind_some]
      simp only [ne_eq, hn0, not_false_eq_true, false_and, if_false, true_and]
      by_cases hpre : cur.state = RUNNING ∧ ¬ cur.pid = 0
      · -- the current process is put back before the switch
        obtain ⟨-, -, -, t, ht⟩ := h.table _ _ hcur
        have hnot : ∀ q', s₁.procCurrent ∉ Function.update (joined s ql) q rest q' := by
          intro q' hi
          exact (waits_iff.mp (hok₁.member q' _ (mem_popped hok₁.shape hq hi).1)).2.1 rfl
        obtain ⟨s₂, h₂, hp₂, hc₂, hshape₂⟩ :=
          requeue_spec (s := { s₁ with links := s₁.links.pop q n }) hpop ht hnot
        have hn₂ : ∀ q', n ∉ Function.update (Function.update (joined s ql) q rest) t
            ((Function.update (joined s ql) q rest t).tail ++ [s₁.procCurrent]) q' := by
          intro q' hi
          rcases mem_requeued hi with hi | ⟨-, hi⟩
          · exact (mem_popped hok₁.shape hq hi).2 rfl
          · exact hncur (hc₁ ▸ hi)
        have hpn₂ : s₂.proc n = some pr := by rw [hp₂]; exact hpn₁
        obtain ⟨s', hs', hsame, hc', hshape⟩ := switchTo_spec hshape₂ hpn₂ hn₂ COUNTER
        rw [if_pos hpre, h₂, Option.bind_some]
        have hsame' : Same s₁ s' := Same.trans (fun i => by rw [hp₂]) hsame
        refine ⟨s', _, hs', hsame₁.trans hsame', hok₁.switched hsame' hpn₁ hc' hshape ?_, ?_⟩
        · intro q' i hi
          rcases mem_requeued hi with hi | ⟨rfl, rfl⟩
          · exact hmem q' i hi
          · refine ⟨fun e => hncur (by rw [← hc₁, e]), fun e => hpre.2 ?_, cur, hcur₁, hpre.1, ht⟩
            rw [hpid, ← hc₁, e]
        · rw [hc₁]
          exact .preempt q n rest t cur hcur hpre.1 ht (fun e => hpre.2 (hpid.trans e)) hch hq hc'
      · rw [if_neg hpre]
        have hn₂ : ∀ q', n ∉ Function.update (joined s ql) q rest q' := fun q' hi =>
          (mem_popped hok₁.shape hq hi).2 rfl
        obtain ⟨s', hs', hsame, hc', hshape⟩ := switchTo_spec
          (s := { s₁ with links := s₁.links.pop q n }) hpop hpn₁ hn₂ COUNTER
        refine ⟨s', _, hs', hsame₁.trans hsame, hok₁.switched hsame hpn₁ hc' hshape hmem, ?_⟩
        refine .switch q n rest ?_ hch hq hc'
        by_cases hr : cur.state = RUNNING
        · exact .inr (hpid ▸ not_not.mp fun e => hpre ⟨hr, e⟩)
        · exact .inl (mt hruns.mp hr)

/-! ## Process states -/

/-- Putting the current process to sleep, or waking a process, changes no queue. -/
theorem setState_spec {s s' : Sched} {ql : ReadyQueue → List Int} (h : OkWith s ql) {p st : Int}
    (hs : s.setState p st = some s')
    (hp : st = RUNNING ∨ p = s.procCurrent ∧ p ≠ PROC_IDLE_NR) :
    OkWith s' ql ∧ s'.procCurrent = s.procCurrent := by
  obtain ⟨pr, hpr, hproc, hlinks, hcur'⟩ := setState_inv hs
  have hself : s'.proc p = some { pr with state := st } := by rw [hproc, Function.update_self]
  have hother : ∀ i, i ≠ p → s'.proc i = s.proc i := fun i hi => by
    rw [hproc, Function.update_of_ne hi]
  refine ⟨⟨fun i pr' hp' => ?_, ?_, ?_, hlinks ▸ h.shape, fun q i hi => ?_⟩, hcur'⟩
  · by_cases hi : i = p
    · subst hi
      obtain rfl := Option.some.inj (hself.symm.trans hp')
      exact h.table i pr hpr
    · rw [hother i hi] at hp'
      exact h.table i pr' hp'
  · obtain ⟨idle, hidle, hr, ht⟩ := h.idle
    by_cases h0 : (0 : Int) = p
    · subst h0
      obtain rfl := Option.some.inj (hidle.symm.trans hpr)
      exact ⟨_, hself, hp.resolve_right fun hc => hc.2 rfl, ht⟩
    · exact ⟨idle, by rw [hother 0 h0]; exact hidle, hr, ht⟩
  · obtain ⟨cur, hcur⟩ := h.current
    rw [hcur']
    by_cases hc : s.procCurrent = p
    · exact ⟨_, hc ▸ hself⟩
    · exact ⟨cur, by rw [hother _ hc]; exact hcur⟩
  · obtain ⟨h0, hc, pr', hpr', hr, ht⟩ := waits_iff.mp (h.member q i hi)
    rw [← hcur'] at hc
    by_cases hi : i = p
    · subst hi
      obtain rfl := Option.some.inj (hpr'.symm.trans hpr)
      have hst := hp.resolve_right fun hx => hc (hx.1.trans hcur'.symm)
      exact waits_iff.mpr ⟨h0, hc, _, hself, hst, ht⟩
    · exact waits_iff.mpr ⟨h0, hc, pr', by rw [hother i hi]; exact hpr', hr, ht⟩

/-- The state of a process. -/
def stateOf (s : Sched) (i : Int) : Option Int := (s.proc i).map fun pr => pr.state

theorem Same.stateOf {s s' : Sched} (h : Same s s') : s'.stateOf = s.stateOf := by
  funext i
  have hi := congrArg (Option.map fun st : Int × Int × Int => st.2.1) (h i)
  rw [Option.map_map, Option.map_map] at hi
  exact hi

theorem currentRuns_iff {s : Sched} : s.CurrentRuns ↔ s.stateOf s.procCurrent = some RUNNING := by
  simp [CurrentRuns, stateOf]

theorem OkWith.pid_bound {s : Sched} {ql : ReadyQueue → List Int} (h : OkWith s ql) {i st : Int}
    (hi : s.stateOf i = some st) : 0 ≤ i ∧ i < NR_PROCS := by
  obtain ⟨pr, hp, -⟩ := Option.map_eq_some_iff.mp hi
  exact ⟨(h.table i pr hp).1, (h.table i pr hp).2.1⟩

/-- `schedule` ends with a running process, and changes no state. -/
theorem schedule_runs {s : Sched} (h : Ok s) :
    ∃ s', s.schedule = some s' ∧ Ok s' ∧ s'.CurrentRuns ∧ s'.stateOf = s.stateOf := by
  obtain ⟨s', ql', hs', hsame, hok', hsch⟩ := schedule_spec h
  refine ⟨s', hs', hok'.ok, ?_, hsame.stateOf⟩
  have hwaits : ∀ {q n rest}, joined s s.ready q = n :: rest → s.stateOf n = some RUNNING := by
    intro q n rest hq
    have hn : n ∈ joined s s.ready q := by rw [hq]; simp
    obtain ⟨-, -, pr, hp, hr, -⟩ := waits_iff.mp ((mem_joined h).mp hn)
    simp [stateOf, hp, hr]
  rw [currentRuns_iff, hsame.stateOf]
  cases hsch with
  | stay hr hc hcur => rw [hcur]; exact currentRuns_iff.mp hr
  | idle hr hc hcur =>
      obtain ⟨pr, hp, hr, -⟩ := h.idle
      simp [hcur, stateOf, hp, hr]
  | switch q n rest hr hc hq hcur => rw [hcur]; exact hwaits hq
  | preempt q n rest t pr hp hr ht h0 hc hq hcur => rw [hcur]; exact hwaits hq

/-- Changing a state and calling `schedule`, as the message functions do. -/
theorem setState_schedule {s : Sched} (h : Ok s) {p st st₀ : Int} (hp : s.stateOf p = some st₀)
    (hst : st = RUNNING ∨ p = s.procCurrent ∧ p ≠ PROC_IDLE_NR) :
    ∃ s₁ s', s.setState p st = some s₁ ∧ s₁.schedule = some s' ∧ Ok s' ∧ s'.CurrentRuns ∧
      s'.stateOf = Function.update s.stateOf p (some st) := by
  obtain ⟨pr, hpr, -⟩ := Option.map_eq_some_iff.mp hp
  have hs₁ : s.setState p st
      = some { s with proc := Function.update s.proc p (some { pr with state := st }) } := by
    simp [setState, modify, hpr]
  obtain ⟨s', hs', hok', hr', hstate⟩ := schedule_runs (setState_spec h hs₁ hst).1.ok
  refine ⟨_, s', hs₁, hs', hok', hr', ?_⟩
  rw [hstate]
  funext i
  by_cases hi : i = p
  · subst hi
    simp [stateOf]
  · simp [stateOf, hi]

/-! ## The clock -/

/-- Writing the counters of the current process. -/
theorem OkWith.count {s : Sched} {ql : ReadyQueue → List Int} (h : OkWith s ql) {pr : ProcStruct}
    (hp : s.proc s.procCurrent = some pr) {f : ProcStruct → ProcStruct}
    (hf : (f pr).status = pr.status) :
    ∃ s', s.modify s.procCurrent f = some s' ∧ OkWith s' ql ∧ s'.stateOf = s.stateOf ∧
      s'.procCurrent = s.procCurrent ∧ s'.proc s'.procCurrent = some (f pr) := by
  obtain ⟨s', hs', hsame, hl, hc⟩ := modify_spec hp hf
  refine ⟨s', hs', h.relink hsame hc (hl ▸ h.shape) h.member, hsame.stateOf, hc, ?_⟩
  rw [modify, hp, Option.map_some] at hs'
  obtain rfl := Option.some.inj hs'
  exact Function.update_self ..

/-- A clock tick changes no state, and leaves a running process current. -/
theorem doIntrClock_spec {s : Sched} (h : Ok s) (hr : s.CurrentRuns) (cpl : Int) :
    ∃ s', s.doIntrClock cpl = some s' ∧ Ok s' ∧ s'.CurrentRuns ∧ s'.stateOf = s.stateOf := by
  obtain ⟨cur, hcur⟩ := h.current
  rw [currentRuns_iff] at hr
  have h₀ : OkWith { s with jiffies := s.jiffies + 1 } s.ready :=
    ⟨h.table, h.idle, h.current, h.shape, h.member⟩
  unfold doIntrClock
  obtain ⟨s₁, h₁, hok₁, hst₁, hc₁, hcur₁⟩ := h₀.count hcur
    (f := fun pr => if cpl ≠ 0 then { pr with utime := pr.utime + 1, counter := pr.counter - 1 }
      else { pr with stime := pr.stime + 1, counter := pr.counter - 1 })
    (by split_ifs <;> rfl)
  have hrun₁ : s₁.stateOf s₁.procCurrent = some RUNNING := by rw [hst₁, hc₁]; exact hr
  simp only [h₁, Option.bind_some, hcur₁]
  generalize (if cpl ≠ 0 then _ else _ : ProcStruct) = cur₁ at hcur₁ ⊢
  by_cases hpos : cur₁.counter > 0
  · rw [if_pos hpos]
    exact ⟨s₁, rfl, hok₁.ok, currentRuns_iff.mpr hrun₁, hst₁⟩
  obtain ⟨s₂, h₂, hok₂, hst₂, hc₂, -⟩ := hok₁.count hcur₁
    (f := fun pr => { pr with counter := 0 }) rfl
  rw [if_neg hpos, h₂, Option.bind_some]
  by_cases hcpl : cpl = 0
  · rw [if_pos hcpl]
    refine ⟨s₂, rfl, hok₂.ok, ?_, hst₂.trans hst₁⟩
    rw [currentRuns_iff, hst₂, hc₂]
    exact hrun₁
  · rw [if_neg hcpl]
    obtain ⟨s₃, h₃, hok₃, hr₃, hst₃⟩ := schedule_runs hok₂.ok
    exact ⟨s₃, h₃, hok₃, hr₃, hst₃.trans (hst₂.trans hst₁)⟩

end Sched

end Mks
