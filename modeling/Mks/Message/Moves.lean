import Mks.Message.Scheduling

set_option autoImplicit false

/-! # What a call does to the queues

`Moves` says what a message function does to the nodes: nothing, or it removes one node of the
queue it searches, or it puts one node at the end of the caller's own queue. The requests of
`Calls.lean` are what the nodes stand for; here the nodes themselves are followed, and with them
the slots of `msg_hardware`.
-/

namespace Mks.Kernel

open Linked

variable {L : Layout} {k k' : Kernel}

/-- The nodes that are queued before and after are as before. -/
def Kept (k k' : Kernel) : Prop :=
  ∀ q, ∀ p ∈ k.nodes q, p ∈ k'.nodes q → k'.heap p = k.heap p ∧ k'.request q p = k.request q p

/-- The outcomes of a call of `caller`, whose requests wait in queue `own`, and which searches
queue `other`. -/
inductive Moves (k : Kernel) (own other : MsgQueue) (caller : Int) : Int → Kernel → Prop
  | failed : Moves k own other caller (-1) k
  /-- The request of process `o` is served. -/
  | woken {k' : Kernel} (l₁ l₂ : List NodeId) (o : Int) (hl : k.nodes other = l₁ ++ .stack o :: l₂)
      (hnodes : k'.nodes = Function.update k.nodes other (l₁ ++ l₂)) (hheap : k'.heap = k.heap)
      (hkept : Kept k k')
      (hstate : k'.sched.stateOf = Function.update k.sched.stateOf o (some RUNNING)) :
      Moves k own other caller 1 k'
  /-- A message in a hardware slot is taken. -/
  | freed {k' : Kernel} (l₁ l₂ : List NodeId) (i : Nat) (hother : other = .smallSend)
      (hl : k.nodes .smallSend = l₁ ++ .hardware i :: l₂)
      (hnodes : k'.nodes = Function.update k.nodes .smallSend (l₁ ++ l₂))
      (hheap : k'.heap
        = Function.update k.heap (.hardware i) { k.heap (.hardware i) with src := 0 })
      (hkept : Kept k k') (hstate : k'.sched.stateOf = k.sched.stateOf) :
      Moves k own other caller 1 k'
  /-- The caller waits. -/
  | blocked {k' : Kernel} (node : MsgStruct)
      (hnodes : k'.nodes = Function.update k.nodes own (k.nodes own ++ [.stack caller]))
      (hheap : k'.heap = Function.update k.heap (.stack caller) node)
      (hcells : k'.cells = k.cells) (hmem : k'.mem = k.mem) (hkept : Kept k k')
      (hpeer : own ≠ .smallReceive → (k'.request own (.stack caller)).peer ≠ MSG_HARDWARE)
      (hstate : k'.sched.stateOf = Function.update k.sched.stateOf caller (some SLEEPING)) :
      Moves k own other caller 1 k'
  /-- The message of an interrupt handler waits in a free slot. -/
  | filled {k' : Kernel} (node : MsgStruct) (i : Nat) (hown : own = .smallSend)
      (hcaller : caller = MSG_HARDWARE) (hfree : k.freeSlot = some i)
      (hnodes : k'.nodes = Function.update k.nodes .smallSend (k.nodes .smallSend ++ [.hardware i]))
      (hheap : k'.heap = Function.update k.heap (.hardware i) node) (hsrc : node.src = MSG_HARDWARE)
      (hcells : k'.cells = k.cells) (hmem : k'.mem = k.mem) (hkept : Kept k k')
      (hpeer : (k'.request .smallSend (.hardware i)).peer ≠ MSG_HARDWARE)
      (hstate : k'.sched.stateOf = k.sched.stateOf) :
      Moves k own other caller 1 k'

/-! ## The parts of the functions -/

/-- The nodes that are left after one has been removed. -/
theorem mem_of_removed {q q' : MsgQueue} {l₁ l₂ : List NodeId} {p p' : NodeId}
    (hl : k.nodes q = l₁ ++ p :: l₂) (hnodes : k'.nodes = Function.update k.nodes q (l₁ ++ l₂))
    (hp : p' ∈ k'.nodes q') : p' ∈ k.nodes q' := by
  rw [hnodes] at hp
  by_cases hq : q' = q
  · subst hq
    rw [Function.update_self] at hp
    rw [hl]
    simp only [List.mem_append, List.mem_cons] at hp ⊢
    exact hp.imp_right .inr
  · rwa [Function.update_of_ne hq] at hp

/-- Only the registers of process `w` have changed, and `w` is the owner of the removed node `p` or
has no node in the queues. -/
theorem kept_removed (h : Ok L k) {q : MsgQueue} {l₁ l₂ : List NodeId} {p : NodeId} {w : Int}
    (hl : k.nodes q = l₁ ++ p :: l₂) (hnodes : k'.nodes = Function.update k.nodes q (l₁ ++ l₂))
    (hw : p = .stack w ∨ ∀ q, .stack w ∉ k.nodes q) (hheap : ∀ p', p' ≠ p → k'.heap p' = k.heap p')
    (hcells : ∀ c, c ≠ L.ebx w → c ≠ L.ecx w → k'.cells c = k.cells c) : Kept k k' := by
  intro q' p' hp' hp''
  rw [hnodes] at hp''
  obtain ⟨-, hne⟩ := (mem_removed h.queues.shape hl q' p').mp hp''
  have hnew : p' ≠ .stack w := by
    intro e
    rcases hw with hw | hw
    · exact hne (e.trans hw.symm)
    · exact hw q' (e ▸ hp')
  exact ⟨hheap p' hne, request_of_cells h.queues hp' hnew (hheap p' hne) hcells⟩

theorem kept_appended {p : NodeId} {node : MsgStruct} (hfresh : ∀ q, p ∉ k.nodes q)
    (hheap : k'.heap = Function.update k.heap p node) (hcells : k'.cells = k.cells) :
    Kept k k' := by
  intro q' p' hp' _
  have hne : p' ≠ p := fun e => hfresh q' (e ▸ hp')
  have hp : k'.heap p' = k.heap p' := by rw [hheap, Function.update_of_ne hne]
  refine ⟨hp, ?_⟩
  unfold request
  rw [hp, hcells]

/-- The last part of a function that has found the request of process `o`. -/
theorem woken_moves (h : Ok L k) {own q : MsgQueue} {l₁ l₂ : List NodeId} {caller o w r : Int}
    {k₁ : Kernel} (hl : k.nodes q = l₁ ++ .stack o :: l₂) (hsched : k₁.sched = k.sched)
    (hheap : k₁.heap = k.heap) (hlinks : k₁.links = k.links.unlink q l₁.getLast? (.stack o))
    (hw : w = o ∨ ∀ q, .stack w ∉ k.nodes q)
    (hcells : ∀ c, c ≠ L.ebx w → c ≠ L.ecx w → k₁.cells c = k.cells c)
    (hs : ((k₁.setState o RUNNING).bind fun k => k.schedule.map fun k => ((1 : Int), k))
      = some (r, k')) : Moves k own q caller r k' := by
  obtain ⟨s', hs', hok, -, hstate⟩ := wake_spec h.queues hl hsched hheap hlinks
  obtain ⟨rfl, rfl⟩ := Prod.mk.injEq .. ▸ Option.some.inj (hs'.symm.trans hs)
  refine .woken l₁ l₂ o hl hok.nodes_eq hheap ?_ hstate
  refine kept_removed h hl hok.nodes_eq (hw.imp_left fun e => e ▸ rfl) ?_ hcells
  intro p' _
  exact congrFun hheap p'

/-- The last part of `small_receive` when it has found a message of an interrupt handler. -/
theorem freed_moves (h : Ok L k) {own : MsgQueue} {l₁ l₂ : List NodeId} {caller w r : Int} {i : Nat}
    {k₁ : Kernel} (hl : k.nodes .smallSend = l₁ ++ .hardware i :: l₂) (hsched : k₁.sched = k.sched)
    (hheap : k₁.heap = Function.update k.heap (.hardware i) { k.heap (.hardware i) with src := 0 })
    (hlinks : k₁.links = k.links.unlink .smallSend l₁.getLast? (.hardware i))
    (hw : ∀ q, .stack w ∉ k.nodes q)
    (hcells : ∀ c, c ≠ L.ebx w → c ≠ L.ecx w → k₁.cells c = k.cells c)
    (hs : (k₁.schedule.map fun k => ((1 : Int), k)) = some (r, k')) :
    Moves k own .smallSend caller r k' := by
  obtain ⟨s', hs', hok, -, hstate⟩ := release_spec h.queues hl k₁ hsched hheap hlinks
  obtain ⟨rfl, rfl⟩ := Prod.mk.injEq .. ▸ Option.some.inj (hs'.symm.trans hs)
  refine .freed l₁ l₂ i rfl hl hok.nodes_eq hheap ?_ hstate
  refine kept_removed h hl hok.nodes_eq (.inr hw) ?_ hcells
  intro p' hne
  show k₁.heap p' = k.heap p'
  rw [hheap, Function.update_of_ne hne]

/-- The last part of a function that blocks. -/
theorem blocked_moves (h : Ok L k) {own other : MsgQueue} {caller r : Int} {node : MsgStruct}
    (hc : caller = k.sched.procCurrent) (h0 : caller ≠ PROC_IDLE_NR)
    (hnode : NodeOk L { k with heap := Function.update k.heap (.stack caller) node } own
      (.stack caller))
    (hpeer : own ≠ .smallReceive →
      (if own.isSend then node.dest else k.cells node.src) ≠ MSG_HARDWARE)
    (hs : ((k.enqueue own (.stack caller) node).bind fun k =>
      (k.setState caller SLEEPING).bind fun k => k.schedule.map fun k => ((1 : Int), k))
        = some (r, k')) :
    Moves k own other caller r k' := by
  obtain ⟨links, s', hs', hok, -, hstate⟩ := block_spec h.queues h.runs hc h0 hnode
  obtain ⟨rfl, rfl⟩ := Prod.mk.injEq .. ▸ Option.some.inj (hs'.symm.trans hs)
  have hfresh : ∀ q, .stack caller ∉ k.nodes q := hc ▸ h.current_not_queued
  refine .blocked node hok.nodes_eq rfl rfl rfl ?_ ?_ hstate
  · exact kept_appended hfresh rfl rfl
  · intro hne
    have hp := hpeer hne
    unfold request
    split <;> simp_all

/-- The last part of `small_send` for a message of an interrupt handler. -/
theorem filled_moves (h : Ok L k) {other : MsgQueue} {r : Int} {i : Nat} {node : MsgStruct}
    (hi : k.freeSlot = some i) (hsrc : node.src = MSG_HARDWARE) (hdest : node.dest ≠ MSG_HARDWARE)
    (hs : ((k.enqueue .smallSend (.hardware i) node).bind fun k =>
      k.schedule.map fun k => ((1 : Int), k)) = some (r, k')) :
    Moves k .smallSend other MSG_HARDWARE r k' := by
  obtain ⟨links, s', hs', hok, -, hstate⟩ := fill_spec h.queues hi hsrc
  obtain ⟨rfl, rfl⟩ := Prod.mk.injEq .. ▸ Option.some.inj (hs'.symm.trans hs)
  have hfresh : ∀ q, .hardware i ∉ k.nodes q := by
    intro q hq
    cases h.queues.node q _ hq with
    | slot hq hlt hs => exact (freeSlot_some hi).2 hs
  refine .filled node i rfl rfl hi hok.nodes_eq rfl hsrc rfl rfl ?_ ?_ hstate
  · exact kept_appended hfresh rfl rfl
  · simpa [request, MsgQueue.isSend] using hdest

/-! ## The four functions -/

theorem smallSend_moves (h : Ok L k) {src dest msg r : Int}
    (hsrc : src = MSG_HARDWARE ∨ src = k.sched.procCurrent ∧ src ≠ PROC_IDLE_NR)
    (hs : k.smallSend src dest msg = some (r, k')) :
    Moves k .smallSend .smallReceive src r k' := by
  unfold smallSend at hs
  split at hs
  · cases hs
    exact .failed
  split at hs
  · cases hs
    exact .failed
  rename_i hdest
  have hpeer : dest ≠ MSG_HARDWARE := by
    intro e
    rw [e] at hdest
    exact hdest (.inl (by decide))
  obtain ⟨⟨t, p⟩, hfind, hs⟩ := Option.bind_eq_some_iff.mp hs
  obtain ⟨f, hf, hfound⟩ := search_spec h.queues .smallReceive (k.accepts src dest)
  obtain rfl := Option.some.inj (hf.symm.trans hfind)
  cases hfound with
  | hit l₁ p l₂ hl hp hm =>
      obtain ⟨o, rfl, hd, hcell, hmsg⟩ :=
        h.queues.receiver (z := .small) (p := p) (show p ∈ k.nodes .smallReceive by rw [hl]; simp)
      have hmsg := hmsg rfl
      simp only [Option.or_none, write_heap, hcell, hmsg] at hs
      generalize hk₁ : unlink _ _ _ _ = k₁ at hs
      have hkd : (k₁.heap (.stack o)).dest = o := by rw [← hk₁]; split_ifs <;> exact hd
      rw [hkd] at hs
      refine woken_moves h hl ?_ ?_ ?_ (.inl rfl) ?_ hs
      · rw [← hk₁]; split_ifs <;> rfl
      · rw [← hk₁]; split_ifs <;> rfl
      · rw [← hk₁]; split_ifs <;> rfl
      · intro c hebx hecx
        rw [← hk₁]
        split_ifs
        · exact (write_cells_of_ne hebx).trans (write_cells_of_ne hecx)
        · exact write_cells_of_ne hecx
  | miss t hm =>
      obtain ⟨b, -, hs⟩ := Option.bind_eq_some_iff.mp hs
      split_ifs at hs with hb hhw
      · cases hs
        exact .failed
      · cases hfree : k.freeSlot with
        | none =>
            rw [hfree] at hs
            cases hs
            exact .failed
        | some i =>
            rw [hfree] at hs
            exact hhw ▸ filled_moves h hfree hhw hpeer hs
      · obtain ⟨hc, h0⟩ := hsrc.resolve_left hhw
        refine blocked_moves h hc h0 (.sender rfl ?_) ?_ hs
        · simp
        · intro _
          exact hpeer

theorem smallReceive_moves (h : Ok L k) {dest r : Int} (hc : dest = k.sched.procCurrent)
    (h0 : dest ≠ PROC_IDLE_NR)
    (hs : k.smallReceive (L.ebx dest) dest (L.ecx dest) = some (r, k')) :
    Moves k .smallReceive .smallSend dest r k' := by
  have hidle : ∀ q, .stack dest ∉ k.nodes q := hc ▸ h.current_not_queued
  unfold smallReceive at hs
  split at hs
  · cases hs
    exact .failed
  split at hs
  · cases hs
    exact .failed
  obtain ⟨⟨t, p⟩, hfind, hs⟩ := Option.bind_eq_some_iff.mp hs
  obtain ⟨f, hf, hfound⟩ :=
    search_spec h.queues .smallSend (k.offers (k.cells (L.ebx dest)) dest)
  obtain rfl := Option.some.inj (hf.symm.trans hfind)
  cases hfound with
  | hit l₁ p l₂ hl hp hm =>
      simp only [Option.or_none] at hs
      generalize hk₁ : unlink _ _ _ _ = k₁ at hs
      have hsched : k₁.sched = k.sched := by rw [← hk₁]; split_ifs <;> rfl
      have hheap : k₁.heap = k.heap := by rw [← hk₁]; split_ifs <;> rfl
      have hlinks : k₁.links = k.links.unlink .smallSend l₁.getLast? p := by
        rw [← hk₁]; split_ifs <;> rfl
      have hcells : ∀ c, c ≠ L.ebx dest → c ≠ L.ecx dest → k₁.cells c = k.cells c := by
        intro c hebx hecx
        rw [← hk₁]
        split_ifs
        · exact (write_cells_of_ne hebx).trans (write_cells_of_ne hecx)
        · exact write_cells_of_ne hecx
      have hmem_p : p ∈ k.nodes .smallSend := by rw [hl]; simp
      rw [hheap] at hs
      cases h.queues.node _ p hmem_p with
      | @slot i hq hi hsrc =>
          rw [if_pos hsrc, Option.bind_some] at hs
          refine freed_moves h hl ?_ ?_ ?_ hidle ?_ hs
          · exact hsched
          · rfl
          · exact hlinks
          · exact hcells
      | @sender o hq hsrc =>
          have hne : (k.heap (.stack o)).src ≠ MSG_HARDWARE := by
            have := (Sched.OkWith.pid_bound h.queues.sched
              ((h.queues.asleep o).mpr ⟨_, hmem_p⟩)).1
            rw [hsrc]
            simp only [MSG_HARDWARE]
            omega
          rw [if_neg hne, hsrc] at hs
          exact woken_moves h hl hsched hheap hlinks (.inr hidle) hcells hs
      | receiver hq hd hsrc hmsg => simp [MsgQueue.isSend] at hq
  | miss t hm =>
      obtain ⟨b, -, hs⟩ := Option.bind_eq_some_iff.mp hs
      split_ifs at hs with hb
      · cases hs
        exact .failed
      · refine blocked_moves h hc h0 (.receiver rfl ?_ ?_ ?_) ?_ hs
        · simp
        · simp
        · simp
        · intro hne
          exact absurd rfl hne

theorem bigSend_moves (h : Ok L k) {src msg r : Int} {n : Nat} (hc : src = k.sched.procCurrent)
    (h0 : src ≠ PROC_IDLE_NR) (hs : k.bigSend n src (L.ebx src) msg = some (r, k')) :
    Moves k .bigSend .bigReceive src r k' := by
  unfold bigSend at hs
  split at hs
  · cases hs
    exact .failed
  split at hs
  · cases hs
    exact .failed
  rename_i hdest
  have hpeer : k.cells (L.ebx src) ≠ MSG_HARDWARE := by
    intro e
    rw [e] at hdest
    exact hdest (.inl (by decide))
  obtain ⟨⟨t, p⟩, hfind, hs⟩ := Option.bind_eq_some_iff.mp hs
  obtain ⟨f, hf, hfound⟩ :=
    search_spec h.queues .bigReceive (k.accepts src (k.cells (L.ebx src)))
  obtain rfl := Option.some.inj (hf.symm.trans hfind)
  cases hfound with
  | hit l₁ p l₂ hl hp hm =>
      obtain ⟨o, rfl, hd, hcell, -⟩ :=
        h.queues.receiver (z := .big) (p := p) (show p ∈ k.nodes .bigReceive by rw [hl]; simp)
      obtain ⟨mem, -, hs⟩ := Option.bind_eq_some_iff.mp hs
      simp only [Option.or_none, hcell] at hs
      generalize hk₁ : unlink _ _ _ _ = k₁ at hs
      have hkd : (k₁.heap (.stack o)).dest = o := by rw [← hk₁]; split_ifs <;> exact hd
      rw [hkd] at hs
      refine woken_moves h hl ?_ ?_ ?_ (.inl rfl) ?_ hs
      · rw [← hk₁]; split_ifs <;> rfl
      · rw [← hk₁]; split_ifs <;> rfl
      · rw [← hk₁]; split_ifs <;> rfl
      · intro c hebx _
        rw [← hk₁]
        split_ifs
        · exact write_cells_of_ne hebx
        · rfl
  | miss t hm =>
      obtain ⟨b, -, hs⟩ := Option.bind_eq_some_iff.mp hs
      split_ifs at hs with hb
      · cases hs
        exact .failed
      · refine blocked_moves h hc h0 (.sender rfl ?_) ?_ hs
        · simp
        · intro _
          exact hpeer

theorem bigReceive_moves (h : Ok L k) {dest msg r : Int} {n : Nat} (hc : dest = k.sched.procCurrent)
    (h0 : dest ≠ PROC_IDLE_NR) (hs : k.bigReceive n (L.ebx dest) dest msg = some (r, k')) :
    Moves k .bigReceive .bigSend dest r k' := by
  have hidle : ∀ q, .stack dest ∉ k.nodes q := hc ▸ h.current_not_queued
  unfold bigReceive at hs
  split at hs
  · cases hs
    exact .failed
  rename_i hsrc
  have hpeer : k.cells (L.ebx dest) ≠ MSG_HARDWARE := by
    intro e
    rw [e] at hsrc
    exact hsrc (.inl (by decide))
  split at hs
  · cases hs
    exact .failed
  obtain ⟨⟨t, p⟩, hfind, hs⟩ := Option.bind_eq_some_iff.mp hs
  obtain ⟨f, hf, hfound⟩ :=
    search_spec h.queues .bigSend (k.offers (k.cells (L.ebx dest)) dest)
  obtain rfl := Option.some.inj (hf.symm.trans hfind)
  cases hfound with
  | hit l₁ p l₂ hl hp hm =>
      obtain ⟨mem, -, hs⟩ := Option.bind_eq_some_iff.mp hs
      simp only [Option.or_none] at hs
      generalize hk₁ : unlink _ _ _ _ = k₁ at hs
      have hheap : k₁.heap = k.heap := by rw [← hk₁]; split_ifs <;> rfl
      rw [hheap] at hs
      cases h.queues.node _ p (show p ∈ k.nodes .bigSend by rw [hl]; simp) with
      | slot hq hi hsrc => cases hq
      | @sender o hq hsrc =>
          rw [hsrc] at hs
          refine woken_moves h hl ?_ hheap ?_ (.inr hidle) ?_ hs
          · rw [← hk₁]; split_ifs <;> rfl
          · rw [← hk₁]; split_ifs <;> rfl
          · intro c hebx _
            rw [← hk₁]
            split_ifs
            · exact write_cells_of_ne hebx
            · rfl
      | receiver hq hd hsrc hmsg => simp [MsgQueue.isSend] at hq
  | miss t hm =>
      obtain ⟨b, -, hs⟩ := Option.bind_eq_some_iff.mp hs
      split_ifs at hs with hb
      · cases hs
        exact .failed
      · refine blocked_moves h hc h0 (.receiver rfl ?_ ?_ ?_) ?_ hs
        · simp
        · simp
        · simp
        · intro _
          exact hpeer

/-! ## Operations -/

/-- The queue in which the requests of a system call wait. -/
def ownQueue : Int → MsgQueue
  | 1 => .smallSend
  | 2 => .smallReceive
  | 3 => .bigSend
  | _ => .bigReceive

/-- The queue in which a system call looks for a request it can serve. -/
def otherQueue : Int → MsgQueue
  | 1 => .smallReceive
  | 2 => .smallSend
  | 3 => .bigReceive
  | _ => .bigSend

/-- **A system call** moves nodes, from the state in which `intr_msg` has saved the registers. -/
theorem msg_moves (h : Ok L k) {f ebx ecx r : Int} (hs : Step L k (.msg f ebx ecx, r) k') :
    Moves (k.saved L ebx ecx) (ownQueue f) (otherQueue f) k.sched.procCurrent r k' := by
  obtain ⟨n, hs⟩ := hs
  have hk := h.saved (L := L) ebx ecx
  obtain ⟨cur, hcur⟩ := h.queues.sched.current
  have hpid : cur.pid = k.sched.procCurrent := (h.queues.sched.table _ _ hcur).2.2.1
  simp only [exec] at hs
  split_ifs at hs with h0
  unfold intrMsg doIntrMsg at hs
  simp only [write_sched, hcur, Option.bind_some, hpid] at hs
  split_ifs at hs with hself h1 h2 h3 h4
  · cases hs
    exact .failed
  · subst h1
    exact smallSend_moves hk (.inr ⟨rfl, h0⟩) hs
  · subst h2
    exact smallReceive_moves hk rfl h0 hs
  · subst h3
    exact bigSend_moves hk rfl h0 hs
  · subst h4
    exact bigReceive_moves hk rfl h0 hs
  · cases hs
    exact .failed

/-- A message of an interrupt handler moves nodes too. -/
theorem hardware_moves (h : Ok L k) {dest msg r : Int}
    (hs : Step L k (.hardware dest msg, r) k') :
    Moves k .smallSend .smallReceive MSG_HARDWARE r k' := by
  obtain ⟨n, hs⟩ := hs
  exact smallSend_moves h (.inl rfl) hs

end Mks.Kernel
