import Mks.Message.Moves

set_option autoImplicit false

/-! # Calls are atomic

A system call that fails leaves the kernel as it was when `intr_msg` had saved the registers. One
that does not fail serves exactly one waiting request, or adds one to the caller's queue.
-/

namespace Mks.Kernel

variable {L : Layout} {k k' : Kernel}

/-- Exactly one waiting request, that of node `p` of queue `q`, has been removed, and its owner
woken. -/
structure Served (k : Kernel) (q : MsgQueue) (p : NodeId) (k' : Kernel) : Prop where
  removed : ∃ l₁ l₂, k.nodes q = l₁ ++ p :: l₂ ∧ k'.nodes = Function.update k.nodes q (l₁ ++ l₂)
  kept : ∀ q' p', p' ∈ k'.nodes q' → k'.heap p' = k.heap p' ∧ k'.request q' p' = k.request q' p'
  asleep : ∀ o, p = .stack o → (k.request q p).owner = o ∧ k.sched.stateOf o = some SLEEPING
  wakes : k'.sched.stateOf = match p with
    | .stack o => Function.update k.sched.stateOf o (some RUNNING)
    | .hardware _ => k.sched.stateOf
  slots : ∀ i, p ≠ .hardware i → k'.heap (.hardware i) = k.heap (.hardware i)

/-- Exactly one node, that of `caller`, has been put at the end of queue `q`, and only `caller` has
been put to sleep. -/
structure Waiting (k : Kernel) (q : MsgQueue) (caller : Int) (k' : Kernel) : Prop where
  fresh : ∀ q', .stack caller ∉ k.nodes q'
  appended : k'.nodes = Function.update k.nodes q (k.nodes q ++ [.stack caller])
  kept : ∀ q', ∀ p' ∈ k.nodes q', k'.heap p' = k.heap p' ∧ k'.request q' p' = k.request q' p'
  sleeps : k'.sched.stateOf = Function.update k.sched.stateOf caller (some SLEEPING)
  cells : k'.cells = k.cells
  mem : k'.mem = k.mem
  slots : ∀ i, k'.heap (.hardware i) = k.heap (.hardware i)

theorem Moves.served_or_waiting {own other : MsgQueue} {caller : Int} {r : Int} (h : Ok L k)
    (hc : caller = k.sched.procCurrent) (hm : Moves k own other caller r k') :
    (r = -1 ∧ k' = k) ∨ (r = 1 ∧ ∃ p, Served k other p k') ∨ (r = 1 ∧ Waiting k own caller k') := by
  have hidle : ∀ q, .stack caller ∉ k.nodes q := hc ▸ h.current_not_queued
  have hpos := h.current_bound.1
  cases hm with
  | failed => exact .inl ⟨rfl, rfl⟩
  | woken l₁ l₂ o hl hnodes hheap hkept hstate =>
      have ho : .stack o ∈ k.nodes other := by rw [hl]; simp
      refine .inr (.inl ⟨rfl, .stack o, ⟨l₁, l₂, hl, hnodes⟩, ?_, ?_, hstate, ?_⟩)
      · intro q' p' hp'
        exact hkept q' p' (mem_of_removed hl hnodes hp') hp'
      · intro o' e
        obtain rfl := NodeId.stack.inj e
        exact ⟨(h.queues.node _ _ ho).owner_stack, (h.queues.asleep o).mpr ⟨_, ho⟩⟩
      · intro i _
        exact congrFun hheap _
  | freed l₁ l₂ i hother hl hnodes hheap hkept hstate =>
      subst hother
      refine .inr (.inl ⟨rfl, .hardware i, ⟨l₁, l₂, hl, hnodes⟩, ?_, ?_, hstate, ?_⟩)
      · intro q' p' hp'
        exact hkept q' p' (mem_of_removed hl hnodes hp') hp'
      · intro o e
        cases e
      · intro j hne
        rw [hheap, Function.update_of_ne (Ne.symm hne)]
  | blocked node hnodes hheap hcells hmem hkept hpeer hstate =>
      refine .inr (.inr ⟨rfl, hidle, hnodes, ?_, hstate, hcells, hmem, ?_⟩)
      · intro q' p' hp'
        refine hkept q' p' hp' ?_
        rw [hnodes]
        exact (mem_appended k.nodes own (.stack caller) q' p').mpr (.inl hp')
      · intro i
        rw [hheap, Function.update_of_ne (by simp)]
  | filled node i hown hcaller hfree hnodes hheap hsrc hcells hmem hkept hpeer hstate =>
      -- the current process is not the hardware
      simp only [MSG_HARDWARE] at hcaller
      omega

/-- **Calls are atomic**: in every run of the kernel, a system call fails and changes nothing, or
it serves exactly one waiting request, or it puts exactly one request at the end of the caller's
own queue and only the caller to sleep. -/
theorem calls_atomic {k₀ : Kernel} {tr : List (Kernel × (Op × Int) × Kernel)} {f ebx ecx r : Int}
    (h₀ : Start k₀) (hr : Run (Step L) k₀ tr k) (hs : Step L k (.msg f ebx ecx, r) k') :
    (r = -1 ∧ k' = k.saved L ebx ecx) ∨
      (r = 1 ∧ ∃ p, Served (k.saved L ebx ecx) (otherQueue f) p k') ∨
      (r = 1 ∧ Waiting (k.saved L ebx ecx) (ownQueue f) k.sched.procCurrent k') := by
  have hok := run_ok h₀ hr
  exact (msg_moves hok hs).served_or_waiting (hok.saved ebx ecx) rfl

/-- Process 1 sends to process 2, which waits for its message. -/
theorem calls_atomic_served : ∃ tr k k', Run (Step (stackLayout 0x18000)) (start blank) tr k ∧
    k.nodes .smallReceive = [.stack 2] ∧ k'.nodes .smallReceive = [] ∧
    ∃ p, Served (k.saved (stackLayout 0x18000) 2 42) .smallReceive p k' := by
  have hex : (execs 0 (stackLayout 0x18000) [.clock 3, .msg 2 1 0] (start blank)).bind
      (fun r => (r.2.exec 0 (stackLayout 0x18000) (.msg 1 2 42)).map
        fun s => (r.2.nodes .smallReceive, s.1, s.2.nodes .smallReceive))
      = some ([.stack 2], 1, []) := by decide +kernel
  obtain ⟨⟨tr, k⟩, hk, he⟩ := Option.bind_eq_some_iff.mp hex
  obtain ⟨⟨r, k'⟩, hk', he⟩ := Option.map_eq_some_iff.mp he
  simp only [Prod.mk.injEq] at he
  obtain ⟨hbefore, rfl, hafter⟩ := he
  have hrun := execs_run hk
  refine ⟨tr, k, k', hrun, hbefore, hafter, ?_⟩
  rcases calls_atomic (start_start blank) hrun ⟨0, hk'⟩ with ⟨hr, -⟩ | ⟨-, hserved⟩ | ⟨-, hwaits⟩
  · exact absurd hr (by decide)
  · exact hserved
  · -- a node that waits would still be there
    have hn : .stack 2 ∈ k'.nodes .smallReceive := by
      rw [hwaits.appended]
      refine (mem_appended _ _ _ _ _).mpr (.inl ?_)
      rw [saved_nodes, hbefore]
      simp
    rw [hafter] at hn
    cases hn

end Mks.Kernel
