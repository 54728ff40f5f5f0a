import Mks.Message.System

set_option autoImplicit false

/-! # Blocked processes

Between two operations, a process is SLEEPING exactly when one of the four message queues holds
a node that it owns, and then there is one such node.
-/

namespace Mks.Kernel

open Linked

variable {L : Layout} {k : Kernel}

/-- The four queues are well formed, and being blocked means being queued once. -/
structure Blocked (k : Kernel) : Prop where
  /-- A queue is a finite chain without repetitions, and its tail is the last node. -/
  queue : ∀ q, Queue k.links.next (k.links.head q) (k.links.tail q) (k.nodes q) ∧
    (k.nodes q).Nodup
  empty : ∀ q, k.nodes q = [] → k.links.head q = none ∧ k.links.tail q = none
  /-- A SLEEPING process owns exactly one node, a RUNNING process owns none. -/
  asleep : ∀ i pr, k.sched.proc i = some pr →
    (pr.state = SLEEPING ↔
      ∃! x : MsgQueue × NodeId, x.2 ∈ k.nodes x.1 ∧ (k.request x.1 x.2).owner = i) ∧
    (pr.state = RUNNING → ∀ q, ∀ p ∈ k.nodes q, (k.request q p).owner ≠ i)
  /-- The current process is not blocked, and its node is in no queue. -/
  current : k.sched.stateOf k.sched.procCurrent ≠ some SLEEPING ∧
    ∀ q, .stack k.sched.procCurrent ∉ k.nodes q

/-- The node of a sleeping process is the only one it owns. -/
theorem Ok.exists_unique_node (h : Ok L k) {i : Int} (hs : k.sched.stateOf i = some SLEEPING) :
    ∃! x : MsgQueue × NodeId, x.2 ∈ k.nodes x.1 ∧ (k.request x.1 x.2).owner = i := by
  obtain ⟨q, hq⟩ := (h.queues.asleep i).mp hs
  refine ⟨(q, .stack i), ⟨hq, (h.queues.node q _ hq).owner_stack⟩, ?_⟩
  rintro ⟨q', p⟩ ⟨hp, hown⟩
  have h0 := (Sched.OkWith.pid_bound h.queues.sched hs).1
  obtain rfl := (h.queues.owner_iff hp h0).mp hown
  rw [h.queues.shape.disjoint q' q _ hp hq]

/-- A running process owns no node. -/
theorem Ok.owner_ne (h : Ok L k) {i : Int} (hr : k.sched.stateOf i = some RUNNING) (q : MsgQueue)
    {p : NodeId} (hp : p ∈ k.nodes q) : (k.request q p).owner ≠ i := by
  intro hown
  have h0 := (Sched.OkWith.pid_bound h.queues.sched hr).1
  obtain rfl := (h.queues.owner_iff hp h0).mp hown
  exact h.queues.not_queued hr q hp

theorem Ok.blocked (h : Ok L k) : Blocked k where
  queue q := ⟨h.queues.shape.queue q, (h.queues.shape.queue q).nodup⟩
  empty q hq := by
    refine ⟨(h.queues.shape.head_eq_none q).mpr hq, ?_⟩
    rw [(h.queues.shape.queue q).last, hq]
    rfl
  asleep i pr hp := by
    have hst : k.sched.stateOf i = some pr.state := by rw [Sched.stateOf, hp, Option.map_some]
    refine ⟨⟨fun hs => h.exists_unique_node (hs ▸ hst), ?_⟩, fun hr q p hp' => ?_⟩
    · rintro ⟨⟨q, p⟩, ⟨hp', hown⟩, -⟩
      refine (h.queues.states i _ hst).resolve_left fun hr => ?_
      exact h.owner_ne (hr ▸ hst) q hp' hown
    · exact h.owner_ne (hr ▸ hst) q hp'
  current := by
    have hrun := Sched.currentRuns_iff.mp h.runs
    refine ⟨fun hs => ?_, h.current_not_queued⟩
    rw [hrun] at hs
    exact absurd hs (by decide)

/-- **Blocked means queued exactly once**, at the end of every run of the kernel. -/
theorem run_blocked {k₀ : Kernel} {tr : List (Kernel × (Op × Int) × Kernel)} (h₀ : Start k₀)
    (hr : Run (Step L) k₀ tr k) : Blocked k := (run_ok h₀ hr).blocked

/-- Process 2 sleeps in a receive, and a hardware message to process 1 is queued. -/
theorem run_blocked_hardware : ∃ tr k, Run (Step (stackLayout 0x18000)) (start blank) tr k ∧
    k.nodes .smallReceive = [.stack 2] ∧ k.nodes .smallSend = [.hardware 0] ∧
    k.sched.stateOf 2 = some SLEEPING ∧ k.sched.procCurrent = 1 ∧ Blocked k := by
  have hex : (execs 0 (stackLayout 0x18000) [.clock 3, .msg 2 (-1) 0, .hardware 1 42]
      (start blank)).map (fun r => (r.2.nodes .smallReceive, r.2.nodes .smallSend,
        r.2.sched.stateOf 2, r.2.sched.procCurrent))
      = some ([.stack 2], [.hardware 0], some SLEEPING, 1) := by decide +kernel
  obtain ⟨⟨tr, k⟩, hk, he⟩ := Option.map_eq_some_iff.mp hex
  simp only [Prod.mk.injEq] at he
  obtain ⟨hreceive, hsend, hsleep, hcur⟩ := he
  have hr := execs_run hk
  exact ⟨tr, k, hr, hreceive, hsend, hsleep, hcur, run_blocked (start_start blank) hr⟩

end Mks.Kernel
