import Mks.Process.Ready
import Mks.Message.Messaging

set_option autoImplicit false

/-! # The message queues

The invariant that ties the four message queues to the process states, and what the parts of
the message functions do under it: the loops (`search_spec`, `crossed_spec`), removing a node
and waking its owner (`wake_spec`, `release_spec`), and queueing a node (`block_spec`,
`fill_spec`).
-/

namespace Mks

open Linked

/-! ## Requests -/

/-- The two kinds of messages, each with a queue of waiting senders and one of waiting
receivers. -/
inductive Size
  | small | big
  deriving DecidableEq, Repr

def Size.send : Size → MsgQueue
  | .small => .smallSend
  | .big => .bigSend

def Size.receive : Size → MsgQueue
  | .small => .smallReceive
  | .big => .bigReceive

def MsgQueue.isSend : MsgQueue → Bool
  | .smallSend | .bigSend => true
  | .smallReceive | .bigReceive => false

/-- What a queued node asks for: its owner (the sender of a send queue, the receiver of a
receive queue), the process at the other end, and its `msg` field. -/
structure Request where
  owner : Int
  peer : Int
  msg : Int
  deriving DecidableEq, Repr

namespace Kernel

/-- The nodes of a queue, from its head. -/
def nodes (k : Kernel) (q : MsgQueue) : List NodeId :=
  toList k.links.next NR_NODES (k.links.head q)

/-- The request that a node of queue `q` stands for. The peer of a receiver is what its saved
`ebx` holds. -/
def request (k : Kernel) (q : MsgQueue) (p : NodeId) : Request :=
  if q.isSend then ⟨(k.heap p).src, (k.heap p).dest, (k.heap p).msg⟩
  else ⟨(k.heap p).dest, k.cells (k.heap p).src, (k.heap p).msg⟩

def requests (k : Kernel) (q : MsgQueue) : List Request := (k.nodes q).map (k.request q)

/-! ## The invariant -/

/-- A node that is in queue `q`: a slot of `msg_hardware`, or the node of a sender or of a
receiver, which points to the receiver's registers. -/
inductive NodeOk (L : Layout) (k : Kernel) (q : MsgQueue) : NodeId → Prop
  | slot {i : Nat} (hq : q = .smallSend) (hi : i < NR_MSG_HARDWARE)
      (hs : (k.heap (.hardware i)).src = MSG_HARDWARE) : NodeOk L k q (.hardware i)
  | sender {p : Int} (hq : q.isSend = true) (hs : (k.heap (.stack p)).src = p) :
      NodeOk L k q (.stack p)
  | receiver {p : Int} (hq : q.isSend = false) (hd : (k.heap (.stack p)).dest = p)
      (hs : (k.heap (.stack p)).src = L.ebx p)
      (hm : q = .smallReceive → (k.heap (.stack p)).msg = L.ecx p) : NodeOk L k q (.stack p)

/-- The queues of `k` are the lists `nl`. -/
structure OkWith (L : Layout) (k : Kernel) (nl : MsgQueue → List NodeId) : Prop where
  sched : k.sched.Ok
  shape : Shape k.links nl
  node : ∀ q, ∀ p ∈ nl q, NodeOk L k q p
  slot : ∀ i, i < NR_MSG_HARDWARE → (k.heap (.hardware i)).src = MSG_HARDWARE →
    .hardware i ∈ nl .smallSend
  states : ∀ p st, k.sched.stateOf p = some st → st = RUNNING ∨ st = SLEEPING
  asleep : ∀ p, k.sched.stateOf p = some SLEEPING ↔ ∃ q, .stack p ∈ nl q

/-- The invariant between two operations: the queues are well formed and the current process is
running. -/
structure Ok (L : Layout) (k : Kernel) : Prop where
  queues : OkWith L k k.nodes
  runs : k.sched.CurrentRuns

variable {L : Layout} {k : Kernel} {nl : MsgQueue → List NodeId}

/-- All nodes there are. -/
def allNodes : List NodeId :=
  ((List.range 64).map fun i : Nat => .stack i) ++ (List.range 1024).map .hardware

theorem OkWith.mem_allNodes (h : OkWith L k nl) {q : MsgQueue} {p : NodeId} (hp : p ∈ nl q) :
    p ∈ allNodes := by
  have hstack : ∀ i : Int, .stack i ∈ nl q → .stack i ∈ allNodes := by
    intro i hi
    obtain ⟨h0, h1⟩ := Sched.OkWith.pid_bound h.sched ((h.asleep i).mpr ⟨q, hi⟩)
    have h1 : i < 64 := h1
    refine List.mem_append_left _ (List.mem_map.mpr ⟨i.toNat, ?_, ?_⟩)
    · exact List.mem_range.mpr (by omega)
    · rw [Int.toNat_of_nonneg h0]
  cases h.node q p hp with
  | slot hq hi hs =>
      exact List.mem_append_right _ (List.mem_map.mpr ⟨_, List.mem_range.mpr hi, rfl⟩)
  | sender hq hs => exact hstack _ hp
  | receiver hq hd hs hm => exact hstack _ hp

/-- A queue is not longer than the bound of the loops. -/
theorem OkWith.length_le (h : OkWith L k nl) (q : MsgQueue) : (nl q).length ≤ NR_NODES := by
  have hsub : nl q ⊆ allNodes := fun p hp => h.mem_allNodes hp
  have hlen := ((h.shape.queue q).nodup.subperm hsub).length_le
  have hall : allNodes.length = NR_NODES := by simp [allNodes, NR_NODES]
  exact hall ▸ hlen

theorem OkWith.nodes_eq (h : OkWith L k nl) : k.nodes = nl :=
  funext fun q => toList_eq (h.shape.queue q).seg (h.length_le q)

theorem OkWith.requests_eq (h : OkWith L k nl) (q : MsgQueue) :
    k.requests q = (nl q).map (k.request q) := by
  rw [requests, h.nodes_eq]

theorem OkWith.ok (h : OkWith L k nl) (hr : k.sched.CurrentRuns) : Ok L k :=
  ⟨h.nodes_eq.symm ▸ h, hr⟩

/-- The node of a running process is in no queue. -/
theorem OkWith.not_queued (h : OkWith L k nl) {p : Int} (hr : k.sched.stateOf p = some RUNNING)
    (q : MsgQueue) : .stack p ∉ nl q := by
  intro hp
  have hs := (h.asleep p).mpr ⟨q, hp⟩
  rw [hr] at hs
  exact absurd hs (by decide)

theorem NodeOk.owner_stack {q : MsgQueue} {p : Int} (h : NodeOk L k q (.stack p)) :
    (k.request q (.stack p)).owner = p := by
  cases h with
  | sender hq hs => rw [request, if_pos hq]; exact hs
  | receiver hq hd hs hm => rw [request, if_neg (by simp [hq])]; exact hd

/-- A node with the number of a process as its owner is the node of that process. -/
theorem OkWith.owner_iff (h : OkWith L k nl) {q : MsgQueue} {p : NodeId} (hp : p ∈ nl q) {i : Int}
    (hi : 0 ≤ i) : (k.request q p).owner = i ↔ p = .stack i := by
  have hn := h.node q p hp
  cases p with
  | stack j => rw [hn.owner_stack, NodeId.stack.injEq]
  | hardware j =>
      cases hn with
      | slot hq hlt hs =>
          subst hq
          refine iff_of_false (fun e => ?_) (by simp)
          have : MSG_HARDWARE = i := hs.symm.trans e
          simp only [MSG_HARDWARE] at this
          omega

/-! ## The loops -/

theorem search_spec (h : OkWith L k nl) (q : MsgQueue) (hit : NodeId → Bool) :
    ∃ r, k.search q hit = some r ∧ Found hit (nl q) none r :=
  find_spec hit none (h.shape.queue q).seg (h.length_le q)

/-- The test of the crossing loops, on requests. -/
theorem waitsFor_iff {q : MsgQueue} {other me : Int} {p : NodeId} :
    k.waitsFor q other me p = true ↔
      (k.request q p).owner = other ∧ (k.request q p).peer = me := by
  have hdec : ∀ P Q : Prop, ∀ [Decidable (P ∧ Q)], decide (P ∧ Q) = true ↔ P ∧ Q :=
    fun P Q _ => decide_eq_true_iff
  cases q <;> simp only [waitsFor, request, MsgQueue.isSend, hdec] <;>
    exact and_congr eq_comm eq_comm

/-- The crossing loops find out whether `other` waits for `me` in one of the queues. -/
theorem crossed_spec (h : OkWith L k nl) (other me : Int) (qs : List MsgQueue) :
    ∃ b, k.crossed other me qs = some b ∧
      (b = true ↔ ∃ q ∈ qs, ∃ a ∈ k.requests q, a.owner = other ∧ a.peer = me) := by
  induction qs with
  | nil => exact ⟨false, rfl, by simp⟩
  | cons q qs ih =>
      obtain ⟨b, hb, hiff⟩ := ih
      obtain ⟨r, hr, hf⟩ := search_spec h q (k.waitsFor q other me)
      rw [crossed, hr, Option.bind_some]
      cases hf with
      | miss t hm =>
          refine ⟨b, by simpa using hb, hiff.trans ?_⟩
          have hno : ¬ ∃ a ∈ k.requests q, a.owner = other ∧ a.peer = me := by
            rintro ⟨a, ha, hown⟩
            rw [h.requests_eq] at ha
            obtain ⟨p, hp, rfl⟩ := List.mem_map.mp ha
            have := waitsFor_iff.mpr hown
            rw [hm p hp] at this
            cases this
          simp [hno]
      | hit l₁ p l₂ hl hp hm =>
          refine ⟨true, rfl, iff_of_true rfl ⟨q, by simp, k.request q p, ?_, waitsFor_iff.mp hp⟩⟩
          rw [h.requests_eq, hl]
          simp

/-! ## Removing a node -/

/-- A node stays well formed when other nodes and cells change. -/
theorem NodeOk.congr {k' : Kernel} {q : MsgQueue} {p : NodeId} (h : NodeOk L k q p)
    (hp : k'.heap p = k.heap p) : NodeOk L k' q p := by
  cases h with
  | slot hq hi hs => exact .slot hq hi (hp ▸ hs)
  | sender hq hs => exact .sender hq (hp ▸ hs)
  | receiver hq hd hs hm => exact .receiver hq (hp ▸ hd) (hp ▸ hs) (fun e => hp ▸ hm e)

/-- What is in a queue after its element `p` has been removed. -/
theorem mem_removed (h : Shape k.links nl) {q : MsgQueue} {l₁ l₂ : List NodeId} {p : NodeId}
    (hl : nl q = l₁ ++ p :: l₂) (q' : MsgQueue) (a : NodeId) :
    a ∈ Function.update nl q (l₁ ++ l₂) q' ↔ a ∈ nl q' ∧ a ≠ p := by
  have hp : p ∈ nl q := by rw [hl]; simp
  by_cases hq : q' = q
  · subst hq
    have hnd := (h.queue q').nodup
    rw [hl] at hnd
    have hno : p ∉ l₁ ++ l₂ := (List.nodup_middle.mp hnd).notMem
    rw [Function.update_self, hl]
    constructor
    · intro ha
      refine ⟨?_, fun e => hno (e ▸ ha)⟩
      simp only [List.mem_append, List.mem_cons] at ha ⊢
      tauto
    · rintro ⟨ha, hne⟩
      simp only [List.mem_append, List.mem_cons] at ha ⊢
      tauto
  · rw [Function.update_of_ne hq]
    exact ⟨fun ha => ⟨ha, fun e => hq (h.disjoint q' q p (e ▸ ha) hp)⟩, fun ha => ha.1⟩

/-- Removing the node of process `o` and waking it: what the message functions do with a process
whose request they serve. -/
theorem wake_spec (h : OkWith L k nl) {k₁ : Kernel} {q : MsgQueue} {l₁ l₂ : List NodeId} {o : Int}
    (hl : nl q = l₁ ++ .stack o :: l₂) (hsched : k₁.sched = k.sched) (hheap : k₁.heap = k.heap)
    (hlinks : k₁.links = k.links.unlink q l₁.getLast? (.stack o)) :
    ∃ s', ((k₁.setState o RUNNING).bind fun k => k.schedule.map fun k => ((1 : Int), k))
        = some (1, { k₁ with sched := s' }) ∧
      OkWith L { k₁ with sched := s' } (Function.update nl q (l₁ ++ l₂)) ∧
      s'.CurrentRuns ∧ s'.stateOf = Function.update k.sched.stateOf o (some RUNNING) := by
  have hmem := mem_removed h.shape hl
  have ho : .stack o ∈ nl q := by rw [hl]; simp
  have hst := (h.asleep o).mpr ⟨q, ho⟩
  obtain ⟨s₁, s', h₁, h', hok', hr', hstate⟩ := Sched.setState_schedule h.sched hst (.inl rfl)
  refine ⟨s', ?_, ?_, hr', hstate⟩
  · rw [setState, hsched, h₁, Option.map_some, Option.bind_some, schedule, h']
    rfl
  · refine ⟨hok', ?_, fun q' a ha => ?_, fun i hi hs => ?_, fun p st hp => ?_, fun p => ?_⟩
    · rw [show ({ k₁ with sched := s' } : Kernel).links = k₁.links from rfl, hlinks]
      exact h.shape.unlink q hl
    · exact (h.node q' a ((hmem q' a).mp ha).1).congr (by rw [hheap])
    · refine (hmem _ _).mpr ⟨h.slot i hi ?_, by simp⟩
      rwa [← hheap]
    · rw [show ({ k₁ with sched := s' } : Kernel).sched = s' from rfl, hstate] at hp
      by_cases hpo : p = o
      · subst hpo
        rw [Function.update_self] at hp
        exact .inl (Option.some.inj hp).symm
      · rw [Function.update_of_ne hpo] at hp
        exact h.states p st hp
    · rw [show ({ k₁ with sched := s' } : Kernel).sched = s' from rfl, hstate]
      by_cases hpo : p = o
      · subst hpo
        rw [Function.update_self]
        refine iff_of_false (by decide) ?_
        rintro ⟨q', hq'⟩
        exact ((hmem q' _).mp hq').2 rfl
      · rw [Function.update_of_ne hpo, h.asleep p]
        refine exists_congr fun q' => ?_
        rw [hmem]
        simp [hpo]

/-- Removing a message that an interrupt handler sent frees its slot. -/
theorem release_spec (h : OkWith L k nl) {l₁ l₂ : List NodeId} {i : Nat}
    (hl : nl .smallSend = l₁ ++ .hardware i :: l₂) (k₁ : Kernel) (hsched : k₁.sched = k.sched)
    (hheap : k₁.heap = Function.update k.heap (.hardware i) { k.heap (.hardware i) with src := 0 })
    (hlinks : k₁.links = k.links.unlink .smallSend l₁.getLast? (.hardware i)) :
    ∃ s', (k₁.schedule.map fun k => ((1 : Int), k)) = some (1, { k₁ with sched := s' }) ∧
      OkWith L { k₁ with sched := s' } (Function.update nl .smallSend (l₁ ++ l₂)) ∧
      s'.CurrentRuns ∧ s'.stateOf = k.sched.stateOf := by
  have hmem := mem_removed h.shape hl
  obtain ⟨s', h', hok', hr', hstate⟩ := Sched.schedule_runs h.sched
  refine ⟨s', ?_, ?_, hr', hstate⟩
  · rw [schedule, hsched, h']
    rfl
  · refine ⟨hok', ?_, fun q' a ha => ?_, fun j hj hs => ?_, fun p st hp => ?_, fun p => ?_⟩
    · rw [show ({ k₁ with sched := s' } : Kernel).links = k₁.links from rfl, hlinks]
      exact h.shape.unlink .smallSend hl
    · obtain ⟨ha, hne⟩ := (hmem q' a).mp ha
      refine (h.node q' a ha).congr ?_
      rw [show ({ k₁ with sched := s' } : Kernel).heap = k₁.heap from rfl, hheap,
        Function.update_of_ne hne]
    · rw [show ({ k₁ with sched := s' } : Kernel).heap = k₁.heap from rfl, hheap] at hs
      by_cases hji : j = i
      · subst hji
        rw [Function.update_self] at hs
        exact absurd (show (0 : Int) = MSG_HARDWARE from hs) (by decide)
      · have hne : NodeId.hardware j ≠ .hardware i := fun e => hji (NodeId.hardware.inj e)
        rw [Function.update_of_ne hne] at hs
        exact (hmem _ _).mpr ⟨h.slot j hj hs, hne⟩
    · rw [show ({ k₁ with sched := s' } : Kernel).sched = s' from rfl, hstate] at hp
      exact h.states p st hp
    · rw [show ({ k₁ with sched := s' } : Kernel).sched = s' from rfl, hstate, h.asleep p]
      refine exists_congr fun q' => ?_
      rw [hmem]
      simp

/-! ## Queueing a node -/

/-- What is in a queue after `p` has been appended. -/
theorem mem_appended (nl : MsgQueue → List NodeId) (q : MsgQueue) (p : NodeId) (q' : MsgQueue)
    (a : NodeId) :
    a ∈ Function.update nl q (nl q ++ [p]) q' ↔ a ∈ nl q' ∨ q' = q ∧ a = p := by
  by_cases hq : q' = q
  · subst hq
    simp
  · simp [hq]

/-- Queueing the node of the current process and putting it to sleep. -/
theorem block_spec (h : OkWith L k nl) (hr : k.sched.CurrentRuns) {p : Int}
    (hp : p = k.sched.procCurrent) (h0 : p ≠ PROC_IDLE_NR) {q : MsgQueue} {node : MsgStruct}
    (hnode : NodeOk L { k with heap := Function.update k.heap (.stack p) node } q (.stack p)) :
    ∃ links s', ((k.enqueue q (.stack p) node).bind fun k =>
        (k.setState p SLEEPING).bind fun k => k.schedule.map fun k => ((1 : Int), k))
        = some (1, { k with
            heap := Function.update k.heap (.stack p) node, links := links, sched := s' }) ∧
      OkWith L { k with
            heap := Function.update k.heap (.stack p) node, links := links, sched := s' }
        (Function.update nl q (nl q ++ [.stack p])) ∧
      s'.CurrentRuns ∧ s'.stateOf = Function.update k.sched.stateOf p (some SLEEPING) := by
  have hst : k.sched.stateOf p = some RUNNING := hp ▸ Sched.currentRuns_iff.mp hr
  have hfresh : ∀ q', .stack p ∉ nl q' := h.not_queued hst
  have hmem := mem_appended nl q (.stack p)
  obtain ⟨links, hlinks, hshape⟩ := h.shape.append q hfresh
  obtain ⟨s₁, s', h₁, h', hok', hr', hstate⟩ :=
    Sched.setState_schedule h.sched hst (.inr ⟨hp, h0⟩)
  refine ⟨links, s', ?_, ?_, hr', hstate⟩
  · rw [enqueue, hlinks, Option.map_some, Option.bind_some, setState]
    simp only [h₁, Option.map_some, Option.bind_some, schedule, h']
  · refine ⟨hok', hshape, fun q' a ha => ?_, fun i hi hs => ?_, fun i st hi => ?_, fun i => ?_⟩
    · rcases (hmem q' a).mp ha with ha | ⟨rfl, rfl⟩
      · have hne : a ≠ .stack p := fun e => hfresh q' (e ▸ ha)
        exact (h.node q' a ha).congr (Function.update_of_ne hne _ _)
      · exact hnode.congr rfl
    · refine (hmem _ _).mpr (.inl (h.slot i hi ?_))
      simpa using hs
    · simp only [hstate] at hi
      by_cases hip : i = p
      · subst hip
        rw [Function.update_self] at hi
        exact .inr (Option.some.inj hi).symm
      · rw [Function.update_of_ne hip] at hi
        exact h.states i st hi
    · simp only [hstate]
      by_cases hip : i = p
      · subst hip
        rw [Function.update_self]
        exact iff_of_true rfl ⟨q, (hmem q _).mpr (.inr ⟨rfl, rfl⟩)⟩
      · rw [Function.update_of_ne hip, h.asleep i]
        refine exists_congr fun q' => ?_
        rw [hmem]
        simp [hip]

theorem freeSlot_some {i : Nat} (h : k.freeSlot = some i) :
    i < NR_MSG_HARDWARE ∧ (k.heap (.hardware i)).src ≠ MSG_HARDWARE := by
  have hmem := List.mem_of_find?_eq_some h
  have hfree := List.find?_some h
  exact ⟨List.mem_range.mp hmem, by simpa using hfree⟩

/-- Queueing a message of an interrupt handler in a free slot. -/
theorem fill_spec (h : OkWith L k nl) {i : Nat} (hi : k.freeSlot = some i) {node : MsgStruct}
    (hnode : node.src = MSG_HARDWARE) :
    ∃ links s', ((k.enqueue .smallSend (.hardware i) node).bind fun k =>
        k.schedule.map fun k => ((1 : Int), k))
        = some (1, { k with
            heap := Function.update k.heap (.hardware i) node, links := links, sched := s' }) ∧
      OkWith L { k with
            heap := Function.update k.heap (.hardware i) node, links := links, sched := s' }
        (Function.update nl .smallSend (nl .smallSend ++ [.hardware i])) ∧
      s'.CurrentRuns ∧ s'.stateOf = k.sched.stateOf := by
  obtain ⟨hlt, hfree⟩ := freeSlot_some hi
  have hfresh : ∀ q', .hardware i ∉ nl q' := by
    intro q' hq'
    cases h.node q' _ hq' with
    | slot hq hlt hs => exact hfree hs
  have hmem := mem_appended nl .smallSend (.hardware i)
  obtain ⟨links, hlinks, hshape⟩ := h.shape.append .smallSend hfresh
  obtain ⟨s', h', hok', hr', hstate⟩ := Sched.schedule_runs h.sched
  refine ⟨links, s', ?_, ?_, hr', hstate⟩
  · rw [enqueue, hlinks, Option.map_some, Option.bind_some]
    simp only [schedule, h', Option.map_some]
  · refine ⟨hok', hshape, fun q' a ha => ?_, fun j hj hs => ?_, fun p st hp => ?_, fun p => ?_⟩
    · rcases (hmem q' a).mp ha with ha | ⟨rfl, rfl⟩
      · have hne : a ≠ .hardware i := fun e => hfresh q' (e ▸ ha)
        exact (h.node q' a ha).congr (Function.update_of_ne hne _ _)
      · exact .slot rfl hlt (by simpa using hnode)
    · by_cases hji : j = i
      · subst hji
        exact (hmem _ _).mpr (.inr ⟨rfl, rfl⟩)
      · refine (hmem _ _).mpr (.inl (h.slot j hj ?_))
        simpa [hji] using hs
    · simp only [hstate] at hp
      exact h.states p st hp
    · simp only [hstate]
      rw [h.asleep p]
      refine exists_congr fun q' => ?_
      rw [hmem]
      simp

end Kernel

end Mks
