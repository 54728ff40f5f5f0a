import Mks.Message.Calls
import Mks.Process.Order

set_option autoImplicit false

/-! # The system step by step

`step_cases`: the invariant `Ok` is kept by every operation, and each operation is one of the
cases of `Stepped`. All later results about runs of the kernel start from it.
-/

namespace Mks

/-- The function codes of `do_intr_msg`. -/
def Size.sendCode : Size → Int
  | .small => 1
  | .big => 3

def Size.receiveCode : Size → Int
  | .small => 2
  | .big => 4

/-- What the sender passes on: the value of `ecx`, or the address of its message page. -/
def Size.content (z : Size) (pid ecx : Int) : Int :=
  match z with
  | .small => ecx
  | .big => (Kernel.msgEntry pid ecx).toInt

/-- What the receiver passes on: the address of its saved `ecx`, or that of its message page. -/
def Size.buffer (z : Size) (L : Layout) (pid ecx : Int) : Int :=
  match z with
  | .small => L.ecx pid
  | .big => (Kernel.msgEntry pid ecx).toInt

/-- The linear address that a request for a big message carries. -/
def Request.addr (x : Request) : Word := BitVec.ofInt 32 x.msg

def MsgQueue.isBig : MsgQueue → Bool
  | .bigSend | .bigReceive => true
  | .smallSend | .smallReceive => false

namespace Kernel

theorem find?_of_first {α : Type} {p : α → Bool} {l l₁ l₂ : List α} {x : α} (hl : l = l₁ ++ x :: l₂)
    (hx : p x = true) (hl₁ : ∀ y ∈ l₁, p y = false) : l.find? p = some x :=
  List.find?_eq_some_iff_append.mpr ⟨hx, l₁, l₂, hl, fun y hy => by rw [hl₁ y hy]; rfl⟩

theorem find?_of_none {α : Type} {p : α → Bool} {l : List α} (h : ∀ x ∈ l, p x = false) :
    l.find? p = none := List.find?_eq_none.mpr fun x hx => by simp [h x hx]

variable {L : Layout} {k : Kernel}

/-- The kernel when `intr_msg` has saved the registers of the current process. -/
def saved (L : Layout) (k : Kernel) (ebx ecx : Int) : Kernel :=
  (k.write (L.ecx k.sched.procCurrent) ecx).write (L.ebx k.sched.procCurrent) ebx

/-- The operations and their results. -/
inductive Stepped (L : Layout) (k : Kernel) : Op × Int → Kernel → Prop
  | rejected {f ebx ecx : Int} (h0 : k.sched.procCurrent ≠ PROC_IDLE_NR)
      (h : ebx = k.sched.procCurrent ∨ ∀ z : Size, f ≠ z.sendCode ∧ f ≠ z.receiveCode) :
      Stepped L k (.msg f ebx ecx, -1) (k.saved L ebx ecx)
  | sent (z : Size) {ebx ecx r : Int} {k' : Kernel} (h0 : k.sched.procCurrent ≠ PROC_IDLE_NR)
      (hne : ebx ≠ k.sched.procCurrent)
      (h : Sent L (k.saved L ebx ecx) z
        ⟨k.sched.procCurrent, ebx, z.content k.sched.procCurrent ecx⟩ r k') :
      Stepped L k (.msg z.sendCode ebx ecx, r) k'
  | received (z : Size) {ebx ecx r : Int} {k' : Kernel} (h0 : k.sched.procCurrent ≠ PROC_IDLE_NR)
      (hne : ebx ≠ k.sched.procCurrent)
      (h : Received L (k.saved L ebx ecx) z
        ⟨k.sched.procCurrent, ebx, z.buffer L k.sched.procCurrent ecx⟩ r k') :
      Stepped L k (.msg z.receiveCode ebx ecx, r) k'
  | hardware {dest msg r : Int} {k' : Kernel}
      (h : Sent L k .small ⟨MSG_HARDWARE, dest, msg⟩ r k') : Stepped L k (.hardware dest msg, r) k'
  | clock {cpl : Int} {s' : Sched} (hstate : s'.stateOf = k.sched.stateOf) :
      Stepped L k (.clock cpl, 0) { k with sched := s' }
  | read {a : Word} {r : Int} {n : Nat} {v : Word} {mem : Mem}
      (h0 : k.sched.procCurrent ≠ PROC_IDLE_NR) (ha : InSegment k.sched.procCurrent a)
      (h : k.mem.userRead n a = some (v, mem)) (hr : r = v.toInt) :
      Stepped L k (.read a, r) { k with mem := mem }
  | write {a v : Word} {n : Nat} {mem : Mem} (h0 : k.sched.procCurrent ≠ PROC_IDLE_NR)
      (ha : InSegment k.sched.procCurrent a) (h : k.mem.userWrite n a v = some mem) :
      Stepped L k (.write a v, 0) { k with mem := mem }
  | kernelStore {a v : Word} (ha : Mem.IsKernelFrame (mapNr a)) :
      Stepped L k (.kernelStore a v, 0) { k with mem := k.mem.store a v }

/-! ## Saving the registers -/

@[simp] theorem saved_sched (ebx ecx : Int) : (k.saved L ebx ecx).sched = k.sched := rfl

@[simp] theorem saved_mem (ebx ecx : Int) : (k.saved L ebx ecx).mem = k.mem := rfl

@[simp] theorem saved_nodes (ebx ecx : Int) : (k.saved L ebx ecx).nodes = k.nodes := rfl

theorem saved_ebx (ebx ecx : Int) : (k.saved L ebx ecx).cells (L.ebx k.sched.procCurrent) = ebx :=
  Function.update_self ..

theorem saved_ecx (ebx ecx : Int) :
    (k.saved L ebx ecx).cells (L.ecx k.sched.procCurrent) = ecx := by
  rw [saved, write_cells_of_ne (L.disjoint _ _).symm]
  exact Function.update_self ..

theorem saved_of_ne {ebx ecx c : Int} (hebx : c ≠ L.ebx k.sched.procCurrent)
    (hecx : c ≠ L.ecx k.sched.procCurrent) : (k.saved L ebx ecx).cells c = k.cells c := by
  rw [saved, write_cells_of_ne hebx, write_cells_of_ne hecx]

theorem Ok.saved (h : Ok L k) (ebx ecx : Int) : Ok L (k.saved L ebx ecx) := by
  have hq := h.queues
  exact ⟨⟨hq.sched, hq.shape, fun q p hp => (hq.node q p hp).congr rfl, hq.slot, hq.states,
    hq.asleep⟩, h.runs⟩

/-- The node of the current process is in no queue. -/
theorem Ok.current_not_queued (h : Ok L k) (q : MsgQueue) :
    .stack k.sched.procCurrent ∉ k.nodes q :=
  h.queues.not_queued (Sched.currentRuns_iff.mp h.runs) q

/-- Saving the registers of the current process changes no waiting request. -/
theorem Ok.saved_requests (h : Ok L k) (ebx ecx : Int) :
    (k.saved L ebx ecx).requests = k.requests := by
  funext q
  refine List.map_congr_left fun p hp => ?_
  refine request_of_cells (o := k.sched.procCurrent) h.queues hp ?_ rfl fun c hebx hecx => ?_
  · exact fun e => h.current_not_queued q (e ▸ hp)
  · exact saved_of_ne hebx hecx

/-! ## System calls -/

/-- `share_page` does not return for the page at `a` and that of a waiting request. -/
def Stuck (k : Kernel) (n : Nat) (a : Word) : Prop :=
  ∃ q x, MsgQueue.isBig q = true ∧ x ∈ k.requests q ∧
    (k.mem.sharePage n a x.addr = none ∨ k.mem.sharePage n x.addr a = none)

theorem Ok.stuck_of_saved (h : Ok L k) {n : Nat} {a : Word} {ebx ecx : Int}
    (hs : (k.saved L ebx ecx).Stuck n a) : k.Stuck n a := by
  obtain ⟨q, x, hq, hx, hshare⟩ := hs
  rw [h.saved_requests] at hx
  exact ⟨q, x, hq, hx, hshare⟩

/-- A system call keeps the invariant. It returns unless it is a big message and `share_page`
does not return. -/
theorem intrMsg_spec (h : Ok L k) (h0 : k.sched.procCurrent ≠ PROC_IDLE_NR) (n : Nat)
    (f ebx ecx : Int) :
    (∃ r k', k.intrMsg n L f ebx ecx = some (r, k') ∧ Ok L k' ∧ Stepped L k (.msg f ebx ecx, r) k') ∨
    (k.intrMsg n L f ebx ecx = none ∧ (f = 3 ∨ f = 4) ∧
      k.Stuck n (msgEntry k.sched.procCurrent ecx)) := by
  obtain ⟨cur, hcur⟩ := h.queues.sched.current
  have hpid : cur.pid = k.sched.procCurrent := (h.queues.sched.table _ _ hcur).2.2.1
  have hk := h.saved (L := L) ebx ecx
  set p := k.sched.procCurrent with hp
  have hrun : k.intrMsg n L f ebx ecx = (k.saved L ebx ecx).doIntrMsg n f (L.ebx p) (L.ecx p) := rfl
  have hebx := saved_ebx (L := L) (k := k) ebx ecx
  have hecx := saved_ecx (L := L) (k := k) ebx ecx
  rw [← hp] at hebx hecx
  rw [hrun, doIntrMsg, saved_sched, ← hp, hcur, Option.bind_some, hpid, hebx, hecx]
  by_cases hself : p = ebx
  · rw [if_pos hself]
    exact .inl ⟨-1, _, rfl, hk, .rejected h0 (.inl hself.symm)⟩
  rw [if_neg hself]
  have hself' := Ne.symm hself
  split_ifs with h1 h2 h3 h4
  · subst h1
    obtain ⟨r, k', hk', hok', hsent⟩ := smallSend_spec hk ebx ecx (.inr ⟨hp, h0⟩)
    exact .inl ⟨r, k', hk', hok', .sent .small h0 hself' hsent⟩
  · subst h2
    obtain ⟨r, k', hk', hok', hrec⟩ := smallReceive_spec hk hp h0
    rw [hebx] at hrec
    exact .inl ⟨r, k', hk', hok', .received .small h0 hself' hrec⟩
  · subst h3
    rcases bigSend_spec hk hp h0 n (msgEntry p ecx).toInt with
      ⟨r, k', hk', hok', hsent⟩ | ⟨hnone, b, hb, -, hshare⟩
    · rw [hebx] at hsent
      exact .inl ⟨r, k', hk', hok', .sent .big h0 hself' hsent⟩
    · rw [BitVec.ofInt_toInt] at hshare
      exact .inr ⟨hnone, .inl rfl, h.stuck_of_saved ⟨.bigReceive, b, rfl, hb, .inl hshare⟩⟩
  · subst h4
    rcases bigReceive_spec hk hp h0 n (msgEntry p ecx).toInt with
      ⟨r, k', hk', hok', hrec⟩ | ⟨hnone, a, ha, -, hshare⟩
    · rw [hebx] at hrec
      exact .inl ⟨r, k', hk', hok', .received .big h0 hself' hrec⟩
    · rw [BitVec.ofInt_toInt] at hshare
      exact .inr ⟨hnone, .inr rfl, h.stuck_of_saved ⟨.bigSend, a, rfl, ha, .inr hshare⟩⟩
  · refine .inl ⟨-1, _, rfl, hk, .rejected h0 (.inr fun z => ?_)⟩
    cases z with
    | small => exact ⟨h1, h2⟩
    | big => exact ⟨h3, h4⟩

/-! ## All operations -/

/-- **One operation.** The invariant is kept, and the operation is one of the cases of
`Stepped`. -/
theorem step_cases {e : Op × Int} {k' : Kernel} (h : Ok L k) (hs : Step L k e k') :
    Ok L k' ∧ Stepped L k e k' := by
  obtain ⟨op, r⟩ := e
  obtain ⟨n, hs⟩ := hs
  -- what changes neither queues nor states keeps the invariant
  have hkeep : ∀ {k' : Kernel}, k'.sched.Ok → k'.sched.CurrentRuns →
      k'.sched.stateOf = k.sched.stateOf → k'.heap = k.heap → k'.links = k.links → Ok L k' := by
    intro k' hok hr hst hheap hlinks
    have hnodes : k'.nodes = k.nodes := by
      funext q
      rw [nodes, nodes, hlinks]
    have hq := h.queues
    refine ⟨⟨hok, ?_, fun q p hp => ?_, fun i hi hsl => ?_, ?_, ?_⟩, hr⟩
    · rw [hnodes, hlinks]; exact hq.shape
    · rw [hnodes] at hp
      exact (hq.node q p hp).congr (congrFun hheap p)
    · rw [hnodes]
      exact hq.slot i hi (hheap ▸ hsl)
    · rw [hst]; exact hq.states
    · rw [hst, hnodes]; exact hq.asleep
  cases op with
  | msg f ebx ecx =>
      simp only [exec] at hs
      split_ifs at hs with h0
      rcases intrMsg_spec h h0 n f ebx ecx with ⟨r', k'', hk', hok', hstep⟩ | ⟨hnone, -⟩
      · obtain ⟨rfl, rfl⟩ : r' = r ∧ k'' = k' := by simpa using hk'.symm.trans hs
        exact ⟨hok', hstep⟩
      · rw [hnone] at hs
        cases hs
  | hardware dest msg =>
      obtain ⟨r', k'', hk', hok', hsent⟩ := smallSend_spec h dest msg (.inl rfl)
      obtain ⟨rfl, rfl⟩ : r' = r ∧ k'' = k' := by simpa using hk'.symm.trans hs
      exact ⟨hok', .hardware hsent⟩
  | clock cpl =>
      obtain ⟨s', hs', hok', hr', hst⟩ := Sched.doIntrClock_spec h.queues.sched h.runs cpl
      simp only [exec, hs', Option.map_some, Option.some.injEq, Prod.mk.injEq] at hs
      obtain ⟨rfl, rfl⟩ := hs
      exact ⟨hkeep hok' hr' hst rfl rfl, .clock hst⟩
  | read a =>
      simp only [exec] at hs
      split_ifs at hs with hc
      obtain ⟨⟨v, mem⟩, hv, he⟩ := Option.map_eq_some_iff.mp hs
      obtain ⟨rfl, rfl⟩ := Prod.mk.injEq .. ▸ he
      simp only [not_or, not_not] at hc
      exact ⟨hkeep h.queues.sched h.runs rfl rfl rfl, .read hc.1 hc.2 hv rfl⟩
  | write a v =>
      simp only [exec] at hs
      split_ifs at hs with hc
      obtain ⟨mem, hv, he⟩ := Option.map_eq_some_iff.mp hs
      obtain ⟨rfl, rfl⟩ := Prod.mk.injEq .. ▸ he
      simp only [not_or, not_not] at hc
      exact ⟨hkeep h.queues.sched h.runs rfl rfl rfl, .write hc.1 hc.2 hv⟩
  | kernelStore a v =>
      simp only [exec] at hs
      split_ifs at hs with ha
      obtain ⟨rfl, rfl⟩ := Prod.mk.injEq .. ▸ Option.some.inj hs
      exact ⟨hkeep h.queues.sched h.runs rfl rfl rfl, .kernelStore ha⟩

/-- Every operation of the kernel returns, except that a big message waits for `share_page`. -/
theorem exec_returns (h : Ok L k) (n : Nat) {op : Op}
    (hop : match op with
      | .msg _ _ _ => k.sched.procCurrent ≠ PROC_IDLE_NR
      | .hardware _ _ | .clock _ => True
      | .read _ | .write _ _ | .kernelStore _ _ => False) :
    (∃ r k', k.exec n L op = some (r, k')) ∨
      ∃ ebx ecx, (op = .msg 3 ebx ecx ∨ op = .msg 4 ebx ecx) ∧
        k.Stuck n (msgEntry k.sched.procCurrent ecx) := by
  cases op with
  | msg f ebx ecx =>
      rw [exec, if_neg hop]
      rcases intrMsg_spec h hop n f ebx ecx with ⟨r, k', hk', -⟩ | ⟨-, hf, hshare⟩
      · exact .inl ⟨r, k', hk'⟩
      · refine .inr ⟨ebx, ecx, ?_, hshare⟩
        rcases hf with rfl | rfl
        · exact .inl rfl
        · exact .inr rfl
  | hardware dest msg =>
      obtain ⟨r, k', hk', -⟩ := smallSend_spec h dest msg (.inl rfl)
      exact .inl ⟨r, k', hk'⟩
  | clock cpl =>
      obtain ⟨s', hs', -⟩ := Sched.doIntrClock_spec h.queues.sched h.runs cpl
      exact .inl ⟨0, { k with sched := s' }, by rw [exec, hs']; rfl⟩
  | read a => exact hop.elim
  | write a v => exact hop.elim
  | kernelStore a v => exact hop.elim

/-! ## Runs -/

/-- The kernel after `main` has called `proc_init` and `msg_init`: no process waits, and the
hardware slots are free. -/
structure Start (k : Kernel) : Prop where
  sched : Sched.Init k.sched
  slot : ∀ i, i < NR_MSG_HARDWARE → (k.heap (.hardware i)).src ≠ MSG_HARDWARE
  head : ∀ q, k.links.head q = none
  tail : ∀ q, k.links.tail q = none

theorem msgInit_start {k : Kernel} (h : Sched.Init k.sched) : Start k.msgInit where
  sched := h
  slot i _ := show (0 : Int) ≠ MSG_HARDWARE by decide
  head _ := rfl
  tail _ := rfl

theorem Start.ok (h : Start k) : Ok L k := by
  have hrun : ∀ p st, k.sched.stateOf p = some st → st = RUNNING := by
    intro p st hp
    obtain ⟨pr, hpr, rfl⟩ := Option.map_eq_some_iff.mp hp
    exact (h.sched.table p pr hpr).2.2.2.1
  have hok : OkWith L k fun _ => [] :=
    { sched := h.sched.ok
      shape := ⟨fun q => ⟨h.head q, h.tail q⟩, by simp⟩
      node := by simp
      slot := fun i hi hs => absurd hs (h.slot i hi)
      states := fun p st hp => .inl (hrun p st hp)
      asleep := fun p => iff_of_false (fun hp => absurd (hrun p _ hp) (by decide)) (by simp) }
  obtain ⟨pr, hp, -⟩ := h.sched.idle
  refine hok.ok (Sched.currentRuns_iff.mpr ?_)
  rw [h.sched.current, Sched.stateOf, hp, Option.map_some, (h.sched.table _ pr hp).2.2.2.1]

theorem Start.requests (h : Start k) (q : MsgQueue) : k.requests q = [] := by
  rw [Kernel.requests, nodes, h.head]
  rfl

/-- **The invariant of all runs.** -/
theorem run_ok {k₀ : Kernel} {tr : List (Kernel × (Op × Int) × Kernel)} (h₀ : Start k₀)
    (hr : Run (Step L) k₀ tr k) : Ok L k :=
  hr.invariant h₀.ok fun h hs => (step_cases h hs).1

theorem run_ok_at {k₀ : Kernel} {tr : List (Kernel × (Op × Int) × Kernel)} (h₀ : Start k₀)
    (hr : Run (Step L) k₀ tr k) {n : Nat} (hn : n ≤ tr.length) : Ok L (stateAt tr k n) :=
  hr.stateAt_invariant h₀.ok (fun h hs => (step_cases h hs).1) hn

/-! ## A start -/

end Kernel

/-- The registers on the kernel stacks of `init_procs`, an array at `base` with one 4KB page for
each process: the processor pushes five words, `intr_msg` seven, then `ecx` and `ebx`. -/
def stackLayout (base : Nat) : Layout where
  ebx p := base + 4096 * (p + 1) - 56
  ecx p := base + 4096 * (p + 1) - 52
  ebx_inj p p' h := by simpa using h
  ecx_inj p p' h := by simpa using h
  disjoint p p' h := by
    have h : (base : Int) + 4096 * (p + 1) - 56 = base + 4096 * (p' + 1) - 52 := h
    omega
  ebx_ge p hp := by
    show (64 : Int) ≤ base + 4096 * (p + 1) - 56
    omega

namespace Kernel

/-- The kernel after start-up, with the memory `mem`. -/
def start (mem : Mem) : Kernel :=
  ({ sched := Sched.procInit
     heap := fun _ => ⟨0, 0, 0⟩
     links := ⟨fun _ => none, fun _ => none, fun _ => none⟩
     cells := fun _ => 0
     mem := mem } : Kernel).msgInit

/-- A memory of zeros, for runs that do not use it. -/
def blank : Mem := ⟨fun _ => 0, fun _ _ => 0⟩

theorem start_start (mem : Mem) : Start (start mem) := msgInit_start Sched.procInit_init

/-- Several operations, with their transitions. -/
def execs (n : Nat) (L : Layout) :
    List Op → Kernel → Option (List (Kernel × (Op × Int) × Kernel) × Kernel)
  | [], k => some ([], k)
  | op :: ops, k => (k.exec n L op).bind fun (r, k') =>
      (execs n L ops k').map fun (tr, k'') => ((k, (op, r), k') :: tr, k'')

theorem execs_run {n : Nat} {L : Layout} {ops : List Op} {k k' : Kernel}
    {tr : List (Kernel × (Op × Int) × Kernel)} (h : execs n L ops k = some (tr, k')) :
    Run (Step L) k tr k' := by
  induction ops generalizing k tr with
  | nil =>
      obtain ⟨rfl, rfl⟩ : [] = tr ∧ k = k' := by simpa [execs] using h
      exact .nil
  | cons op ops ih =>
      simp only [execs, Option.bind_eq_some_iff, Option.map_eq_some_iff, Prod.mk.injEq] at h
      obtain ⟨⟨r, k₁⟩, h₁, ⟨tr₁, k₂⟩, h₂, rfl, rfl⟩ := h
      exact (Run.snoc .nil ⟨n, h₁⟩).append (ih h₂)

end Kernel

end Mks
