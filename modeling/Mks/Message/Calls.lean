import Mks.Message.Queues

set_option autoImplicit false

/-! # The four message functions

What `small_send`, `small_receive`, `big_send` and `big_receive` do to the requests that wait
in the queues, to the process states and to the cells. `Sent` and `Received` are the possible
outcomes; `smallSend_spec` and its three companions prove them, and that the invariant is kept.
-/

namespace Mks

open Linked

/-- A waiting sender and a waiting receiver that can be served together. -/
def meets (a b : Request) : Bool := a.peer = b.owner ∧ (b.peer = a.owner ∨ b.peer = MSG_ANY)

/-- The cells when receiver `o` has got message `a`: a small message is stored, and the sender is
left in the place of the requested source. -/
def Size.answer (z : Size) (L : Layout) (cells : Int → Int) (o : Int) (a : Request) : Int → Int :=
  match z with
  | .small => Function.update (Function.update cells (L.ecx o) a.msg) (L.ebx o) a.owner
  | .big => Function.update cells (L.ebx o) a.owner

theorem Size.answer_of_ne (z : Size) {L : Layout} {cells : Int → Int} {o c : Int} {a : Request}
    (hebx : c ≠ L.ebx o) (hecx : c ≠ L.ecx o) : z.answer L cells o a c = cells c := by
  cases z with
  | small => rw [answer, Function.update_of_ne hebx, Function.update_of_ne hecx]
  | big => rw [answer, Function.update_of_ne hebx]

/-- The memory when message `a` has been passed to `b`: big messages share a page. -/
def Size.Transfer (z : Size) (mem : Mem) (a b : Int) (mem' : Mem) : Prop :=
  match z with
  | .small => mem' = mem
  | .big => ∃ n, mem.sharePage n (BitVec.ofInt 32 a) (BitVec.ofInt 32 b) = some mem'

namespace Kernel

variable {L : Layout} {k : Kernel}

/-- `other` waits for `me` in some queue other than `q₀`. -/
def Crossed (k : Kernel) (q₀ : MsgQueue) (other me : Int) : Prop :=
  ∃ q, q ≠ q₀ ∧ ∃ a ∈ k.requests q, a.owner = other ∧ a.peer = me

/-- The outcomes of sending `a`. Only `small_send` looks for crossed calls. -/
inductive Sent (L : Layout) (k : Kernel) (z : Size) (a : Request) : Int → Kernel → Prop
  | invalid (h : a.peer < 0 ∨ a.peer ≥ NR_PROCS) : Sent L k z a (-1) k
  | crossed (hz : z = .small) (hno : ∀ b ∈ k.requests z.receive, meets a b = false)
      (h : k.Crossed z.receive a.peer a.owner) : Sent L k z a (-1) k
  | full (ha : a.owner = MSG_HARDWARE) (h : k.freeSlot = none) : Sent L k z a (-1) k
  /-- The first receiver that accepts the message gets it. -/
  | delivered {k' : Kernel} (l₁ l₂ : List Request) (b : Request)
      (hl : k.requests z.receive = l₁ ++ b :: l₂) (hb : meets a b = true)
      (hl₁ : ∀ x ∈ l₁, meets a x = false)
      (hreq : k'.requests = Function.update k.requests z.receive (l₁ ++ l₂))
      (hcells : k'.cells = z.answer L k.cells a.peer a)
      (hmem : z.Transfer k.mem a.msg b.msg k'.mem)
      (hstate : k'.sched.stateOf = Function.update k.sched.stateOf a.peer (some RUNNING)) :
      Sent L k z a 1 k'
  /-- The message waits. -/
  | queued {k' : Kernel} (hno : ∀ b ∈ k.requests z.receive, meets a b = false)
      (hcross : z = .small → ¬ k.Crossed z.receive a.peer a.owner)
      (hreq : k'.requests = Function.update k.requests z.send (k.requests z.send ++ [a]))
      (hcells : k'.cells = k.cells) (hmem : k'.mem = k.mem)
      (hstate : k'.sched.stateOf = if a.owner = MSG_HARDWARE then k.sched.stateOf
        else Function.update k.sched.stateOf a.owner (some SLEEPING)) :
      Sent L k z a 1 k'

/-- The outcomes of the receive call `b`. -/
inductive Received (L : Layout) (k : Kernel) (z : Size) (b : Request) : Int → Kernel → Prop
  | invalid (h : b.peer < 0 ∧ b.peer ≠ MSG_ANY ∧ (z = .small → b.peer ≠ MSG_HARDWARE) ∨
      b.peer ≥ NR_PROCS) : Received L k z b (-1) k
  | crossed (hno : ∀ a ∈ k.requests z.send, meets a b = false)
      (h : k.Crossed z.send b.peer b.owner) : Received L k z b (-1) k
  /-- The first message that the receiver accepts is taken. -/
  | taken {k' : Kernel} (l₁ l₂ : List Request) (a : Request)
      (hl : k.requests z.send = l₁ ++ a :: l₂) (ha : meets a b = true)
      (hl₁ : ∀ x ∈ l₁, meets x b = false)
      (hreq : k'.requests = Function.update k.requests z.send (l₁ ++ l₂))
      (hcells : k'.cells = z.answer L k.cells b.owner a)
      (hmem : z.Transfer k.mem a.msg b.msg k'.mem)
      (hstate : k'.sched.stateOf = if a.owner = MSG_HARDWARE then k.sched.stateOf
        else Function.update k.sched.stateOf a.owner (some RUNNING)) :
      Received L k z b 1 k'
  /-- The receiver waits. -/
  | queued {k' : Kernel} (hno : ∀ a ∈ k.requests z.send, meets a b = false)
      (hcross : ¬ k.Crossed z.send b.peer b.owner)
      (hreq : k'.requests = Function.update k.requests z.receive (k.requests z.receive ++ [b]))
      (hcells : k'.cells = k.cells) (hmem : k'.mem = k.mem)
      (hstate : k'.sched.stateOf = Function.update k.sched.stateOf b.owner (some SLEEPING)) :
      Received L k z b 1 k'

/-! ## Nodes and requests -/

theorem request_send {q : MsgQueue} (hq : q.isSend = true) (p : NodeId) :
    k.request q p = ⟨(k.heap p).src, (k.heap p).dest, (k.heap p).msg⟩ := if_pos hq

theorem request_receive {q : MsgQueue} (hq : q.isSend = false) (p : NodeId) :
    k.request q p = ⟨(k.heap p).dest, k.cells (k.heap p).src, (k.heap p).msg⟩ :=
  if_neg (by simp [hq])

@[simp] theorem Size.isSend_send (z : Size) : z.send.isSend = true := by cases z <;> rfl

@[simp] theorem Size.isSend_receive (z : Size) : z.receive.isSend = false := by cases z <;> rfl

/-- The test of the loops of the two send functions. -/
theorem accepts_eq (z : Size) (src dest msg : Int) (p : NodeId) :
    k.accepts src dest p = meets ⟨src, dest, msg⟩ (k.request z.receive p) := by
  rw [request_receive (Size.isSend_receive z), accepts, meets]
  exact decide_eq_decide.mpr (and_congr Iff.rfl (or_congr eq_comm Iff.rfl))

/-- The test of the loops of the two receive functions. -/
theorem offers_eq (z : Size) (src dest msg : Int) (p : NodeId) :
    k.offers src dest p = meets (k.request z.send p) ⟨dest, src, msg⟩ := by
  rw [request_send (Size.isSend_send z), offers, meets]
  exact decide_eq_decide.mpr (and_congr eq_comm Iff.rfl)

/-- The requests after a change that leaves the queued nodes as they were. -/
theorem requests_congr {k' : Kernel} {nl' : MsgQueue → List NodeId} (h : OkWith L k' nl')
    (hreq : ∀ q, ∀ p ∈ nl' q, k'.request q p = k.request q p) (q : MsgQueue) :
    k'.requests q = (nl' q).map (k.request q) := by
  rw [h.requests_eq]
  exact List.map_congr_left fun p hp => hreq q p hp

theorem requests_update {k' : Kernel} {nl : MsgQueue → List NodeId} (h : OkWith L k nl)
    {q : MsgQueue} {l : List NodeId} (h' : OkWith L k' (Function.update nl q l))
    (hreq : ∀ q', ∀ p ∈ Function.update nl q l q', k'.request q' p = k.request q' p) :
    k'.requests = Function.update k.requests q (l.map (k.request q)) := by
  funext q'
  rw [requests_congr h' hreq]
  by_cases hq : q' = q
  · subst hq
    rw [Function.update_self, Function.update_self]
  · rw [Function.update_of_ne hq, Function.update_of_ne hq, h.requests_eq]

/-- Only the registers of process `o` change, and `o` has no node in the receive queues. -/
theorem request_of_cells {k' : Kernel} {nl : MsgQueue → List NodeId} (h : OkWith L k nl) {o : Int}
    {q : MsgQueue} {p : NodeId} (hp : p ∈ nl q) (hne : p ≠ .stack o) (hheap : k'.heap p = k.heap p)
    (hcells : ∀ a, a ≠ L.ebx o → a ≠ L.ecx o → k'.cells a = k.cells a) :
    k'.request q p = k.request q p := by
  unfold request
  rw [hheap]
  by_cases hq : q.isSend = true
  · rw [if_pos hq, if_pos hq]
  · rw [if_neg hq, if_neg hq]
    cases h.node q p hp with
    | slot hq' hi hs => exact absurd (hq' ▸ rfl) hq
    | sender hq' hs => exact absurd hq' hq
    | receiver hq' hd hs hm =>
        rw [hs, hcells]
        · exact fun e => hne (by rw [L.ebx_inj e])
        · exact L.disjoint _ _

/-- `if(*a == MSG_ANY) *a = v;` when `*a` is `v` or `MSG_ANY`. -/
theorem write_any {a v : Int} (h : v = k.cells a ∨ k.cells a = MSG_ANY) :
    (if k.cells a = MSG_ANY then k.write a v else k) = k.write a v := by
  by_cases hany : k.cells a = MSG_ANY
  · rw [if_pos hany]
  · rw [if_neg hany, h.resolve_right hany, write, Function.update_eq_self]

theorem Ok.current_bound (h : Ok L k) :
    0 ≤ k.sched.procCurrent ∧ k.sched.procCurrent < NR_PROCS :=
  Sched.OkWith.pid_bound h.queues.sched (Sched.currentRuns_iff.mp h.runs)

/-! ## Serving a request -/

/-- The last part of a send function that has found a receiver. -/
theorem delivered_spec {nl : MsgQueue → List NodeId} (h : OkWith L k nl) {z : Size} {a : Request}
    {l₁ l₂ : List NodeId} {o : Int} (hl : nl z.receive = l₁ ++ .stack o :: l₂)
    (ho : meets a (k.request z.receive (.stack o)) = true)
    (hl₁ : ∀ x ∈ l₁, meets a (k.request z.receive x) = false) (k₁ : Kernel)
    (hsched : k₁.sched = k.sched) (hheap : k₁.heap = k.heap)
    (hlinks : k₁.links = k.links.unlink z.receive l₁.getLast? (.stack o))
    (hcells : k₁.cells = z.answer L k.cells a.peer a)
    (hmem : z.Transfer k.mem a.msg (k.heap (.stack o)).msg k₁.mem) :
    ∃ k', ((k₁.setState o RUNNING).bind fun k => k.schedule.map fun k => ((1 : Int), k))
        = some (1, k') ∧ Ok L k' ∧ Sent L k z a 1 k' := by
  have hmem_o : .stack o ∈ nl z.receive := by rw [hl]; simp
  have hown := (h.node _ _ hmem_o).owner_stack
  have hpeer : a.peer = o := by
    rw [← hown]
    exact (of_decide_eq_true ho).1
  obtain ⟨s', hs', hok', hr', hstate⟩ := wake_spec h hl hsched hheap hlinks
  have hreq := requests_update h hok' fun q' p hp => by
    obtain ⟨hp, hne⟩ := (mem_removed h.shape hl q' p).mp hp
    refine request_of_cells h hp hne (congrFun hheap p) fun c hebx hecx => ?_
    show k₁.cells c = k.cells c
    rw [hcells, hpeer, Size.answer_of_ne z hebx hecx]
  refine ⟨_, hs', hok'.ok hr', ?_⟩
  refine .delivered (l₁.map (k.request z.receive)) (l₂.map (k.request z.receive))
    (k.request z.receive (.stack o)) ?_ ho ?_ ?_ hcells ?_ (hpeer ▸ hstate)
  · rw [h.requests_eq, hl, List.map_append, List.map_cons]
  · intro x hx
    obtain ⟨p, hp, rfl⟩ := List.mem_map.mp hx
    exact hl₁ p hp
  · rw [hreq, List.map_append]
  · rw [request_receive (Size.isSend_receive z)]
    exact hmem

/-- The nodes of a receive queue are those of processes. -/
theorem OkWith.receiver {nl : MsgQueue → List NodeId} (h : OkWith L k nl) {z : Size} {p : NodeId}
    (hp : p ∈ nl z.receive) : ∃ o, p = .stack o ∧ (k.heap p).dest = o ∧ (k.heap p).src = L.ebx o ∧
      (z = .small → (k.heap p).msg = L.ecx o) := by
  cases h.node _ p hp with
  | slot hq hi hs => cases z <;> cases hq
  | sender hq hs => simp at hq
  | @receiver o hq hd hs hm => exact ⟨o, rfl, hd, hs, fun hz => hm (by rw [hz]; rfl)⟩

/-- The last part of a receive function that has found a message. -/
theorem taken_spec {nl : MsgQueue → List NodeId} (h : OkWith L k nl) {z : Size} {b : Request}
    {l₁ l₂ : List NodeId} {p : NodeId} (hl : nl z.send = l₁ ++ p :: l₂)
    (hp : meets (k.request z.send p) b = true)
    (hl₁ : ∀ x ∈ l₁, meets (k.request z.send x) b = false)
    (hb : k.sched.stateOf b.owner = some RUNNING) (k₁ : Kernel)
    (hsched : k₁.sched = k.sched)
    (hheap : k₁.heap = k.heap)
    (hlinks : k₁.links = k.links.unlink z.send l₁.getLast? p)
    (hcells : k₁.cells = z.answer L k.cells b.owner (k.request z.send p))
    (hmem : z.Transfer k.mem (k.heap p).msg b.msg k₁.mem) :
    ∃ k', ((if (k.heap p).src = MSG_HARDWARE then
          some { k₁ with heap := Function.update k₁.heap p { k₁.heap p with src := 0 } }
        else k₁.setState (k.heap p).src RUNNING).bind fun k => k.schedule.map fun k => ((1 : Int), k))
        = some (1, k') ∧ Ok L k' ∧ Received L k z b 1 k' := by
  have hrequest : k.request z.send p = ⟨(k.heap p).src, (k.heap p).dest, (k.heap p).msg⟩ :=
    request_send (Size.isSend_send z) p
  -- the registers of the receiver are in use by no node
  have hcong : ∀ (k' : Kernel), k'.cells = k₁.cells → ∀ q', ∀ p' ∈ nl q', k'.heap p' = k.heap p' →
      k'.request q' p' = k.request q' p' := by
    intro k' hk' q' p' hp' hheap'
    refine request_of_cells (o := b.owner) h hp' (fun e => ?_) hheap' fun c hebx hecx => ?_
    · exact h.not_queued hb q' (e ▸ hp')
    · rw [hk', hcells, Size.answer_of_ne z hebx hecx]
  have hout : ∀ {k' : Kernel}, k'.cells = k₁.cells → k'.mem = k₁.mem →
      k'.requests = Function.update k.requests z.send ((l₁ ++ l₂).map (k.request z.send)) →
      k'.sched.stateOf = (if (k.heap p).src = MSG_HARDWARE then k.sched.stateOf
        else Function.update k.sched.stateOf (k.heap p).src (some RUNNING)) →
      Received L k z b 1 k' := by
    intro k' hc hm hreq hstate
    refine .taken (l₁.map (k.request z.send)) (l₂.map (k.request z.send)) (k.request z.send p)
      ?_ hp ?_ ?_ ?_ ?_ ?_
    · rw [h.requests_eq, hl, List.map_append, List.map_cons]
    · intro x hx
      obtain ⟨p', hp', rfl⟩ := List.mem_map.mp hx
      exact hl₁ p' hp'
    · rw [hreq, List.map_append]
    · rw [hc, hcells]
    · rw [hm, hrequest]
      exact hmem
    · rw [hstate, hrequest]
  have hmem_p : p ∈ nl z.send := by rw [hl]; simp
  cases h.node _ p hmem_p with
  | @slot i hq hi hs =>
      have hz : z = .small := by cases z <;> simp_all [Size.send]
      subst hz
      rw [if_pos hs]
      obtain ⟨s', hs', hok', hr', hstate⟩ := release_spec h hl { k₁ with
        heap := Function.update k₁.heap (.hardware i) { k₁.heap (.hardware i) with src := 0 } }
        hsched (by rw [hheap]) hlinks
      refine ⟨_, hs', hok'.ok hr', hout rfl rfl ?_ (by rw [if_pos hs]; exact hstate)⟩
      refine requests_update h hok' fun q' p' hp' => ?_
      obtain ⟨hp', hne⟩ := (mem_removed h.shape hl q' p').mp hp'
      refine hcong _ ?_ q' p' hp' ?_
      · rfl
      · show Function.update k₁.heap _ _ p' = _
        rw [Function.update_of_ne hne, hheap]
  | @sender o hq hs =>
      have hne : o ≠ MSG_HARDWARE := by
        have := (Sched.OkWith.pid_bound h.sched ((h.asleep o).mpr ⟨_, hmem_p⟩)).1
        simp only [MSG_HARDWARE]
        omega
      rw [hs, if_neg hne]
      obtain ⟨s', hs', hok', hr', hstate⟩ := wake_spec h hl hsched hheap hlinks
      refine ⟨_, hs', hok'.ok hr', hout rfl rfl ?_ (by rw [hs, if_neg hne]; exact hstate)⟩
      refine requests_update h hok' fun q' p' hp' => ?_
      obtain ⟨hp', -⟩ := (mem_removed h.shape hl q' p').mp hp'
      exact hcong _ rfl q' p' hp' (congrFun hheap p')
  | receiver hq hd hs hm => simp at hq

/-! ## Waiting -/

/-- The requests after a new node has been appended. -/
theorem requests_append {k' : Kernel} {nl : MsgQueue → List NodeId} (h : OkWith L k nl)
    {q : MsgQueue} {p : NodeId} {node : MsgStruct} (hfresh : ∀ q', p ∉ nl q')
    (h' : OkWith L k' (Function.update nl q (nl q ++ [p])))
    (hheap : k'.heap = Function.update k.heap p node) (hcells : k'.cells = k.cells) :
    k'.requests = Function.update k.requests q (k.requests q ++ [k'.request q p]) := by
  have hold : ∀ q', (nl q').map (k'.request q') = k.requests q' := by
    intro q'
    rw [h.requests_eq]
    refine List.map_congr_left fun p' hp' => ?_
    have hne : p' ≠ p := fun e => hfresh q' (e ▸ hp')
    simp only [request, hheap, hcells, Function.update_of_ne hne]
  funext q'
  rw [h'.requests_eq]
  by_cases hq : q' = q
  · subst hq
    rw [Function.update_self, Function.update_self, List.map_append, hold]
    rfl
  · rw [Function.update_of_ne hq, Function.update_of_ne hq, hold]

/-- The last part of a function that puts the request of the current process in a queue. -/
theorem waiting_spec (h : Ok L k) {q : MsgQueue} {p : Int} (hp : p = k.sched.procCurrent)
    (h0 : p ≠ PROC_IDLE_NR) (node : MsgStruct)
    (hnode : NodeOk L { k with heap := Function.update k.heap (.stack p) node } q (.stack p)) :
    ∃ k', ((k.enqueue q (.stack p) node).bind fun k =>
        (k.setState p SLEEPING).bind fun k => k.schedule.map fun k => ((1 : Int), k))
        = some (1, k') ∧ Ok L k' ∧
      k'.requests = Function.update k.requests q (k.requests q ++
        [if q.isSend then ⟨node.src, node.dest, node.msg⟩
          else ⟨node.dest, k.cells node.src, node.msg⟩]) ∧
      k'.cells = k.cells ∧ k'.mem = k.mem ∧
      k'.sched.stateOf = Function.update k.sched.stateOf p (some SLEEPING) := by
  have hst : k.sched.stateOf p = some RUNNING := hp ▸ Sched.currentRuns_iff.mp h.runs
  obtain ⟨links, s', hs', hok', hr', hstate⟩ := block_spec h.queues h.runs hp h0 hnode
  refine ⟨_, hs', hok'.ok hr', ?_, rfl, rfl, hstate⟩
  rw [requests_append h.queues (h.queues.not_queued hst) hok' rfl rfl]
  simp only [request, Function.update_self]

/-- The last part of `small_send` for a message of an interrupt handler. -/
theorem filled_spec (h : Ok L k) {i : Nat} (hi : k.freeSlot = some i) (node : MsgStruct)
    (hnode : node.src = MSG_HARDWARE) :
    ∃ k', ((k.enqueue .smallSend (.hardware i) node).bind fun k =>
        k.schedule.map fun k => ((1 : Int), k)) = some (1, k') ∧ Ok L k' ∧
      k'.requests = Function.update k.requests .smallSend (k.requests .smallSend ++
        [⟨node.src, node.dest, node.msg⟩]) ∧
      k'.cells = k.cells ∧ k'.mem = k.mem ∧ k'.sched.stateOf = k.sched.stateOf := by
  have hfresh : ∀ q', .hardware i ∉ k.nodes q' := by
    intro q' hq'
    cases h.queues.node q' _ hq' with
    | slot hq hlt hs => exact (freeSlot_some hi).2 hs
  obtain ⟨links, s', hs', hok', hr', hstate⟩ := fill_spec h.queues hi hnode
  refine ⟨_, hs', hok'.ok hr', ?_, rfl, rfl, hstate⟩
  rw [requests_append h.queues hfresh hok' rfl rfl]
  simp [request, MsgQueue.isSend]

/-- A search that finds nothing, on requests. -/
theorem no_match {nl : MsgQueue → List NodeId} (h : OkWith L k nl) {q : MsgQueue}
    {f : Request → Bool} (hm : ∀ p ∈ nl q, f (k.request q p) = false) :
    ∀ a ∈ k.requests q, f a = false := by
  intro a ha
  rw [h.requests_eq] at ha
  obtain ⟨p, hp, rfl⟩ := List.mem_map.mp ha
  exact hm p hp

/-- The queues that the loops of a function search for a crossed call. -/
theorem crossed_iff (q₀ : MsgQueue) {qs : List MsgQueue} (hqs : ∀ q, q ∈ qs ↔ q ≠ q₀)
    {other me : Int} :
    (∃ q ∈ qs, ∃ a ∈ k.requests q, a.owner = other ∧ a.peer = me) ↔ k.Crossed q₀ other me :=
  exists_congr fun q => and_congr_left fun _ => hqs q

/-! ## The four functions -/

@[simp] theorem write_heap (a v : Int) : (k.write a v).heap = k.heap := rfl

theorem write_cells_of_ne {a c v : Int} (h : c ≠ a) : (k.write a v).cells c = k.cells c :=
  Function.update_of_ne h _ _

@[simp] theorem unlink_heap (q : MsgQueue) (t : Option NodeId) (p : NodeId) :
    (k.unlink q t p).heap = k.heap := rfl

theorem smallSend_spec (h : Ok L k) {src : Int} (dest msg : Int)
    (hsrc : src = MSG_HARDWARE ∨ src = k.sched.procCurrent ∧ src ≠ PROC_IDLE_NR) :
    ∃ r k', k.smallSend src dest msg = some (r, k') ∧ Ok L k' ∧
      Sent L k .small ⟨src, dest, msg⟩ r k' := by
  have hcur := h.current_bound
  have hvalid : ¬ ((src < 0 ∧ src ≠ MSG_HARDWARE) ∨ src ≥ NR_PROCS) := by
    rintro (⟨h0, hne⟩ | hge)
    · exact hsrc.elim hne fun hc => by omega
    · rcases hsrc with rfl | ⟨rfl, -⟩
      · exact absurd hge (by decide)
      · omega
  unfold smallSend
  rw [if_neg hvalid]
  by_cases hdest : dest < 0 ∨ dest ≥ NR_PROCS
  · rw [if_pos hdest]
    exact ⟨-1, k, rfl, h, .invalid hdest⟩
  rw [if_neg hdest]
  obtain ⟨r, hr, hf⟩ := search_spec h.queues .smallReceive (k.accepts src dest)
  have hacc := accepts_eq (k := k) .small src dest msg
  rw [hr, Option.bind_some]
  cases hf with
  | hit l₁ p l₂ hl hp hm =>
      have hp_mem : p ∈ k.nodes .smallReceive := by rw [hl]; simp
      obtain ⟨o, rfl, hd, hs, hmsg⟩ := h.queues.receiver (z := .small) hp_mem
      have hpd := of_decide_eq_true hp
      have hdo : dest = o := hpd.1.trans hd
      -- the requested source is rewritten only if it is `MSG_ANY`
      have hany : src = (k.write (L.ecx o) msg).cells (L.ebx o) ∨
          (k.write (L.ecx o) msg).cells (L.ebx o) = MSG_ANY := by
        rw [write_cells_of_ne (L.disjoint o o), ← hs]
        exact hpd.2
      simp only [Option.or_none, write_heap, hs, hmsg rfl]
      rw [write_any hany]
      simp only [unlink_heap, write_heap, hd]
      obtain ⟨k', hk', hok', hsent⟩ := delivered_spec h.queues (z := .small)
        (a := ⟨src, dest, msg⟩)
        hl (hacc _ ▸ hp) (fun x hx => hacc x ▸ hm x hx)
        (((k.write (L.ecx o) msg).write (L.ebx o) src).unlink .smallReceive l₁.getLast? (.stack o))
        rfl rfl rfl
        (by rw [hdo]; rfl) rfl
      exact ⟨1, k', hk', hok', hsent⟩
  | miss t hm =>
      have hno : ∀ b ∈ k.requests .smallReceive, meets ⟨src, dest, msg⟩ b = false :=
        no_match h.queues fun p hp => hacc p ▸ hm p hp
      obtain ⟨b, hb, hiff⟩ := crossed_spec h.queues dest src [.smallSend, .bigSend, .bigReceive]
      rw [crossed_iff .smallReceive (by intro q; cases q <;> simp)] at hiff
      simp only [hb, Option.bind_some]
      cases b with
      | true => exact ⟨-1, k, rfl, h, .crossed rfl hno (hiff.mp rfl)⟩
      | false =>
          have hcross : ¬ k.Crossed .smallReceive dest src := fun hc => by cases hiff.mpr hc
          rw [if_neg (by decide)]
          by_cases hhw : src = MSG_HARDWARE
          · rw [if_pos hhw]
            cases hfree : k.freeSlot with
            | none => exact ⟨-1, k, rfl, h, .full hhw hfree⟩
            | some i =>
                obtain ⟨k', hk', hok', hreq, hcells, hmem, hstate⟩ :=
                  filled_spec h hfree ⟨src, dest, msg⟩ hhw
                refine ⟨1, k', hk', hok', .queued hno (fun _ => hcross) hreq hcells hmem ?_⟩
                rw [if_pos hhw]
                exact hstate
          · rw [if_neg hhw]
            obtain ⟨hcur', h0⟩ := hsrc.resolve_left hhw
            obtain ⟨k', hk', hok', hreq, hcells, hmem, hstate⟩ :=
              waiting_spec h hcur' h0 ⟨src, dest, msg⟩
                (.sender (q := .smallSend) rfl (by simp))
            refine ⟨1, k', hk', hok', .queued hno (fun _ => hcross) hreq hcells hmem ?_⟩
            rw [if_neg hhw]
            exact hstate

/-- `smallReceive` of the current process `dest`, with the registers where `intr_msg` saves
them. -/
theorem smallReceive_spec (h : Ok L k) {dest : Int} (hdest : dest = k.sched.procCurrent)
    (h0 : dest ≠ PROC_IDLE_NR) :
    ∃ r k', k.smallReceive (L.ebx dest) dest (L.ecx dest) = some (r, k') ∧ Ok L k' ∧
      Received L k .small ⟨dest, k.cells (L.ebx dest), L.ecx dest⟩ r k' := by
  have hcur := h.current_bound
  set src := k.cells (L.ebx dest) with hsrc
  have hrun : k.sched.stateOf dest = some RUNNING := hdest ▸ Sched.currentRuns_iff.mp h.runs
  unfold smallReceive
  rw [← hsrc]
  by_cases hinv : (src < 0 ∧ src ≠ MSG_ANY ∧ src ≠ MSG_HARDWARE) ∨ src ≥ NR_PROCS
  · rw [if_pos hinv]
    refine ⟨-1, k, rfl, h, .invalid ?_⟩
    exact hinv.imp_left fun hi => ⟨hi.1, hi.2.1, fun _ => hi.2.2⟩
  rw [if_neg hinv, if_neg (by omega)]
  obtain ⟨r, hr, hf⟩ := search_spec h.queues .smallSend (k.offers src dest)
  have hoff := offers_eq (k := k) .small src dest (L.ecx dest)
  rw [hr, Option.bind_some]
  cases hf with
  | hit l₁ p l₂ hl hp hm =>
      have hpd := of_decide_eq_true hp
      have hcell : (k.write (L.ecx dest) (k.heap p).msg).cells (L.ebx dest) = src :=
        write_cells_of_ne (L.disjoint dest dest)
      have hany : (k.heap p).src = (k.write (L.ecx dest) (k.heap p).msg).cells (L.ebx dest) ∨
          (k.write (L.ecx dest) (k.heap p).msg).cells (L.ebx dest) = MSG_ANY := by
        rw [hcell]
        exact hpd.2.imp_left Eq.symm
      simp only [Option.or_none, write_heap]
      rw [write_any hany]
      simp only [unlink_heap, write_heap]
      obtain ⟨k', hk', hok', hrec⟩ := taken_spec h.queues (z := .small)
        (b := ⟨dest, src, L.ecx dest⟩)
        hl (hoff p ▸ hp) (fun x hx => hoff x ▸ hm x hx) hrun
        (((k.write (L.ecx dest) (k.heap p).msg).write (L.ebx dest) (k.heap p).src).unlink
          .smallSend l₁.getLast? p) rfl rfl rfl rfl rfl
      exact ⟨1, k', hk', hok', hrec⟩
  | miss t hm =>
      have hno : ∀ a ∈ k.requests .smallSend, meets a ⟨dest, src, L.ecx dest⟩ = false :=
        no_match h.queues (f := fun a => meets a ⟨dest, src, L.ecx dest⟩)
          fun p hp => hoff p ▸ hm p hp
      obtain ⟨b, hb, hiff⟩ := crossed_spec h.queues src dest [.smallReceive, .bigSend, .bigReceive]
      rw [crossed_iff .smallSend (by intro q; cases q <;> simp)] at hiff
      simp only [hb, Option.bind_some]
      cases b with
      | true => exact ⟨-1, k, rfl, h, .crossed hno (hiff.mp rfl)⟩
      | false =>
          have hcross : ¬ k.Crossed .smallSend src dest := fun hc => by cases hiff.mpr hc
          rw [if_neg (by decide)]
          obtain ⟨k', hk', hok', hreq, hcells, hmem, hstate⟩ :=
            waiting_spec h hdest h0 (q := .smallReceive) ⟨L.ebx dest, dest, L.ecx dest⟩
              (.receiver rfl (by simp) (by simp) (by simp))
          exact ⟨1, k', hk', hok', .queued hno hcross hreq hcells hmem hstate⟩

/-- The owner of a request is a sleeping process or the hardware. -/
theorem Ok.owner_asleep (h : Ok L k) {q : MsgQueue} {a : Request} (ha : a ∈ k.requests q) :
    k.sched.stateOf a.owner = some SLEEPING ∨ a.owner = MSG_HARDWARE ∧ q = .smallSend := by
  obtain ⟨p, hp, rfl⟩ := List.mem_map.mp ha
  have hnode := h.queues.node q p hp
  cases p with
  | stack o =>
      rw [hnode.owner_stack]
      exact .inl ((h.queues.asleep o).mpr ⟨q, hp⟩)
  | hardware i =>
      cases hnode with
      | slot hq hi hs =>
          rw [request_send (by rw [hq]; rfl)]
          exact .inr ⟨hs, hq⟩

theorem Ok.owner_lt (h : Ok L k) {q : MsgQueue} {a : Request} (ha : a ∈ k.requests q) :
    a.owner < NR_PROCS := by
  rcases h.owner_asleep ha with hs | ⟨hs, -⟩
  · exact (Sched.OkWith.pid_bound h.queues.sched hs).2
  · rw [hs]
    decide

/-- `bigSend` of the current process `src`. It does not return only if `share_page` does not. -/
theorem bigSend_spec (h : Ok L k) {src : Int} (hsrc : src = k.sched.procCurrent)
    (h0 : src ≠ PROC_IDLE_NR) (n : Nat) (msg : Int) :
    (∃ r k', k.bigSend n src (L.ebx src) msg = some (r, k') ∧ Ok L k' ∧
      Sent L k .big ⟨src, k.cells (L.ebx src), msg⟩ r k') ∨
    (k.bigSend n src (L.ebx src) msg = none ∧ ∃ b ∈ k.requests .bigReceive,
      meets ⟨src, k.cells (L.ebx src), msg⟩ b = true ∧
      k.mem.sharePage n (BitVec.ofInt 32 msg) (BitVec.ofInt 32 b.msg) = none) := by
  have hcur := h.current_bound
  set dest := k.cells (L.ebx src) with hdef
  unfold bigSend
  rw [← hdef, if_neg (by omega)]
  by_cases hdest : dest < 0 ∨ dest ≥ NR_PROCS
  · rw [if_pos hdest]
    exact .inl ⟨-1, k, rfl, h, .invalid hdest⟩
  rw [if_neg hdest]
  obtain ⟨r, hr, hf⟩ := search_spec h.queues .bigReceive (k.accepts src dest)
  have hacc := accepts_eq (k := k) .big src dest msg
  rw [hr, Option.bind_some]
  cases hf with
  | hit l₁ p l₂ hl hp hm =>
      have hp_mem : p ∈ k.nodes .bigReceive := by rw [hl]; simp
      obtain ⟨o, rfl, hd, hs, -⟩ := h.queues.receiver (z := .big) hp_mem
      have hpd := of_decide_eq_true hp
      have hdo : dest = o := hpd.1.trans hd
      have hmsg : (k.request .bigReceive (.stack o)).msg = (k.heap (.stack o)).msg := rfl
      simp only [Option.or_none]
      cases hshare : k.mem.sharePage n (BitVec.ofInt 32 msg)
          (BitVec.ofInt 32 (k.heap (.stack o)).msg) with
      | none =>
          refine .inr ⟨rfl, k.request .bigReceive (.stack o), List.mem_map_of_mem hp_mem,
            hacc _ ▸ hp, ?_⟩
          rw [hmsg, hshare]
      | some mem =>
          rw [Option.bind_some, hs,
            write_any (k := { k with mem := mem }) (by rw [← hs]; exact hpd.2)]
          simp only [unlink_heap, write_heap, hd]
          obtain ⟨k', hk', hok', hsent⟩ := delivered_spec h.queues (z := .big)
            (a := ⟨src, dest, msg⟩)
            hl (hacc _ ▸ hp) (fun x hx => hacc x ▸ hm x hx)
            ((({ k with mem := mem } : Kernel).write (L.ebx o) src).unlink .bigReceive
              l₁.getLast? (.stack o)) rfl rfl rfl
            (by rw [hdo]; rfl) ⟨n, hshare⟩
          exact .inl ⟨1, k', hk', hok', hsent⟩
  | miss t hm =>
      have hno : ∀ b ∈ k.requests .bigReceive, meets ⟨src, dest, msg⟩ b = false :=
        no_match h.queues fun p hp => hacc p ▸ hm p hp
      obtain ⟨b, hb, hiff⟩ := crossed_spec h.queues (L.ebx src) src
        [.smallSend, .smallReceive, .bigSend]
      -- an address on a kernel stack is the owner of no request
      have hb' : b = false := by
        refine Bool.eq_false_iff.mpr fun ht => ?_
        obtain ⟨q, -, a, ha, hown, -⟩ := hiff.mp ht
        have := h.owner_lt ha
        have := L.ebx_ge src (by omega)
        omega
      subst hb'
      simp only [hb, Option.bind_some]
      obtain ⟨k', hk', hok', hreq, hcells, hmem, hstate⟩ :=
        waiting_spec h hsrc h0 ⟨src, dest, msg⟩
          (.sender (q := .bigSend) rfl (by simp))
      refine .inl ⟨1, k', hk', hok', .queued hno (fun hz => by cases hz) hreq hcells hmem ?_⟩
      have hne : src ≠ MSG_HARDWARE := by
        simp only [MSG_HARDWARE]
        omega
      rw [if_neg hne]
      exact hstate

/-- `bigReceive` of the current process `dest`. It does not return only if `share_page` does
not. -/
theorem bigReceive_spec (h : Ok L k) {dest : Int} (hdest : dest = k.sched.procCurrent)
    (h0 : dest ≠ PROC_IDLE_NR) (n : Nat) (msg : Int) :
    (∃ r k', k.bigReceive n (L.ebx dest) dest msg = some (r, k') ∧ Ok L k' ∧
      Received L k .big ⟨dest, k.cells (L.ebx dest), msg⟩ r k') ∨
    (k.bigReceive n (L.ebx dest) dest msg = none ∧ ∃ a ∈ k.requests .bigSend,
      meets a ⟨dest, k.cells (L.ebx dest), msg⟩ = true ∧
      k.mem.sharePage n (BitVec.ofInt 32 a.msg) (BitVec.ofInt 32 msg) = none) := by
  have hcur := h.current_bound
  set src := k.cells (L.ebx dest) with hsrc
  have hrun : k.sched.stateOf dest = some RUNNING := hdest ▸ Sched.currentRuns_iff.mp h.runs
  unfold bigReceive
  rw [← hsrc]
  by_cases hinv : (src < 0 ∧ src ≠ MSG_ANY) ∨ src ≥ NR_PROCS
  · rw [if_pos hinv]
    refine .inl ⟨-1, k, rfl, h, .invalid ?_⟩
    exact hinv.imp_left fun hi => ⟨hi.1, hi.2, fun hz => by cases hz⟩
  rw [if_neg hinv, if_neg (by omega)]
  obtain ⟨r, hr, hf⟩ := search_spec h.queues .bigSend (k.offers src dest)
  have hoff := offers_eq (k := k) .big src dest msg
  rw [hr, Option.bind_some]
  cases hf with
  | hit l₁ p l₂ hl hp hm =>
      have hp_mem : p ∈ k.nodes .bigSend := by rw [hl]; simp
      have hpd := of_decide_eq_true hp
      simp only [Option.or_none]
      cases hshare : k.mem.sharePage n (BitVec.ofInt 32 (k.heap p).msg) (BitVec.ofInt 32 msg) with
      | none =>
          exact .inr ⟨rfl, k.request .bigSend p, List.mem_map_of_mem hp_mem, hoff p ▸ hp, hshare⟩
      | some mem =>
          have hany : (k.heap p).src = ({ k with mem := mem } : Kernel).cells (L.ebx dest) ∨
              ({ k with mem := mem } : Kernel).cells (L.ebx dest) = MSG_ANY :=
            hpd.2.imp_left Eq.symm
          have hne : (k.heap p).src ≠ MSG_HARDWARE := by
            cases h.queues.node .bigSend p hp_mem with
            | slot hq hi hs => cases hq
            | sender hq hs =>
                have := (Sched.OkWith.pid_bound h.queues.sched
                  ((h.queues.asleep _).mpr ⟨_, hp_mem⟩)).1
                rw [hs]
                simp only [MSG_HARDWARE]
                omega
            | receiver hq hd hs hmsg => cases hq
          rw [Option.bind_some, write_any hany]
          simp only [unlink_heap, write_heap]
          obtain ⟨k', hk', hok', hrec⟩ := taken_spec h.queues (z := .big)
            (b := ⟨dest, src, msg⟩)
            hl (hoff p ▸ hp) (fun x hx => hoff x ▸ hm x hx) hrun
            ((({ k with mem := mem } : Kernel).write (L.ebx dest) (k.heap p).src).unlink
              .bigSend l₁.getLast? p) rfl rfl rfl rfl ⟨n, hshare⟩
          rw [if_neg hne] at hk'
          exact .inl ⟨1, k', hk', hok', hrec⟩
  | miss t hm =>
      have hno : ∀ a ∈ k.requests .bigSend, meets a ⟨dest, src, msg⟩ = false :=
        no_match h.queues (f := fun a => meets a ⟨dest, src, msg⟩) fun p hp => hoff p ▸ hm p hp
      obtain ⟨b, hb, hiff⟩ := crossed_spec h.queues src dest
        [.smallSend, .smallReceive, .bigReceive]
      rw [crossed_iff .bigSend (by intro q; cases q <;> simp)] at hiff
      simp only [hb, Option.bind_some]
      cases b with
      | true => exact .inl ⟨-1, k, rfl, h, .crossed hno (hiff.mp rfl)⟩
      | false =>
          have hcross : ¬ k.Crossed .bigSend src dest := fun hc => by cases hiff.mpr hc
          rw [if_neg (by decide)]
          obtain ⟨k', hk', hok', hreq, hcells, hmem, hstate⟩ :=
            waiting_spec h hdest h0 (q := .bigReceive) ⟨L.ebx dest, dest, msg⟩
              (.receiver rfl (by simp) (by simp) (by simp))
          exact .inl ⟨1, k', hk', hok', .queued hno hcross hreq hcells hmem hstate⟩

end Kernel

end Mks
