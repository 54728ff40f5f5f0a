import Mks.Message.Moves
import Mks.Message.Waiting

set_option autoImplicit false

/-! # The slots of `msg_hardware`

The field `src` of a slot tells whether the slot is in use: it is `MSG_HARDWARE` exactly while the
slot is linked in the queue of small sends. A queued slot is left as it is until its message is
received, which frees it, and no message of an interrupt handler to a valid process is refused
before all slots are queued.
-/

namespace Mks.Kernel

variable {L : Layout} {k k' : Kernel}

/-! ## Slots in use -/

/-- A slot is marked exactly if it is linked, and then once, in the queue of small sends. -/
theorem Ok.slot_marked (h : Ok L k) {i : Nat} (hi : i < NR_MSG_HARDWARE) :
    (k.nodes .smallSend).count (.hardware i)
        = (if (k.heap (.hardware i)).src = MSG_HARDWARE then 1 else 0) ∧
      ∀ q, q ≠ .smallSend → .hardware i ∉ k.nodes q := by
  constructor
  · split
    · exact List.count_eq_one_of_mem (h.queues.shape.queue _).nodup (h.queues.slot i hi ‹_›)
    · refine List.count_eq_zero.mpr fun hmem => ?_
      cases h.queues.node _ _ hmem with
      | slot hq hlt hs => contradiction
  · intro q hq hmem
    cases h.queues.node q _ hmem with
    | slot hq' hlt hs => exact hq hq'

/-- No slot is free, so each of them is queued. -/
theorem Ok.all_queued (h : Ok L k) (hfull : k.freeSlot = none) {i : Nat} (hi : i < NR_MSG_HARDWARE) :
    .hardware i ∈ k.nodes .smallSend := by
  have hno := List.find?_eq_none.mp hfull i (List.mem_range.mpr hi)
  exact h.queues.slot i hi (by simpa using hno)

def NodeId.isSlot : NodeId → Bool
  | .hardware _ => true
  | .stack _ => false

/-- The number of messages of interrupt handlers that wait. -/
def slotsQueued (k : Kernel) : Nat := (k.nodes .smallSend).countP NodeId.isSlot

/-- When all slots are queued, `NR_MSG_HARDWARE` messages of interrupt handlers wait. -/
theorem Ok.slotsQueued_eq (h : Ok L k)
    (hall : ∀ i < NR_MSG_HARDWARE, .hardware i ∈ k.nodes .smallSend) :
    k.slotsQueued = NR_MSG_HARDWARE := by
  have hinj : Function.Injective NodeId.hardware := fun i j e => NodeId.hardware.inj e
  have hslots : ((List.range NR_MSG_HARDWARE).map NodeId.hardware).Nodup :=
    List.nodup_range.map hinj
  have hnd := (h.queues.shape.queue .smallSend).nodup.filter NodeId.isSlot
  unfold slotsQueued
  rw [List.countP_eq_length_filter]
  apply le_antisymm
  · have hsub : (k.nodes .smallSend).filter NodeId.isSlot
        ⊆ (List.range NR_MSG_HARDWARE).map NodeId.hardware := by
      intro p hp
      obtain ⟨hp, hs⟩ := List.mem_filter.mp hp
      cases h.queues.node _ p hp with
      | slot hq hi hsrc => exact List.mem_map_of_mem (List.mem_range.mpr hi)
      | sender hq hsrc => cases hs
      | receiver hq hd hsrc hm => cases hs
    simpa using (hnd.subperm hsub).length_le
  · have hsub : (List.range NR_MSG_HARDWARE).map NodeId.hardware
        ⊆ (k.nodes .smallSend).filter NodeId.isSlot := by
      intro p hp
      obtain ⟨i, hi, rfl⟩ := List.mem_map.mp hp
      exact List.mem_filter.mpr ⟨hall i (List.mem_range.mp hi), rfl⟩
    simpa using (hslots.subperm hsub).length_le

/-! ## What an operation does to the slots -/

/-- A queued slot stays queued and is not overwritten, or it leaves the queue and becomes free. -/
def SlotsKept (k k' : Kernel) : Prop :=
  ∀ i, .hardware i ∈ k.nodes .smallSend →
    (.hardware i ∈ k'.nodes .smallSend ∧ k'.heap (.hardware i) = k.heap (.hardware i)) ∨
    (.hardware i ∉ k'.nodes .smallSend ∧ (k'.heap (.hardware i)).src ≠ MSG_HARDWARE)

theorem Moves.slotsKept {own other : MsgQueue} {caller r : Int} (h : Ok L k)
    (hm : Moves k own other caller r k') : SlotsKept k k' := by
  intro i hi
  have keep : .hardware i ∈ k'.nodes .smallSend → Kept k k' →
      .hardware i ∈ k'.nodes .smallSend ∧ k'.heap (.hardware i) = k.heap (.hardware i) :=
    fun hi' hkept => ⟨hi', (hkept _ _ hi hi').1⟩
  cases hm with
  | failed => exact .inl ⟨hi, rfl⟩
  | woken l₁ l₂ o hl hnodes hheap hkept hstate =>
      refine .inl (keep ?_ hkept)
      rw [hnodes]
      exact (mem_removed h.queues.shape hl _ _).mpr ⟨hi, by simp⟩
  | freed l₁ l₂ j hother hl hnodes hheap hkept hstate =>
      by_cases hij : i = j
      · subst hij
        refine .inr ⟨?_, ?_⟩
        · rw [hnodes]
          exact fun hi' => ((mem_removed h.queues.shape hl _ _).mp hi').2 rfl
        · rw [hheap, Function.update_self]
          exact fun e => absurd (show (0 : Int) = MSG_HARDWARE from e) (by decide)
      · refine .inl (keep ?_ hkept)
        rw [hnodes]
        exact (mem_removed h.queues.shape hl _ _).mpr ⟨hi, by simpa using hij⟩
  | blocked node hnodes hheap hcells hmem hkept hpeer hstate =>
      refine .inl (keep ?_ hkept)
      rw [hnodes]
      exact (mem_appended _ _ _ _ _).mpr (.inl hi)
  | filled node j hown hcaller hfree hnodes hheap hsrc hcells hmem hkept hpeer hstate =>
      refine .inl (keep ?_ hkept)
      rw [hnodes]
      exact (mem_appended _ _ _ _ _).mpr (.inl hi)

/-- No request but a small receive names the hardware as its peer. -/
def PeersValid (k : Kernel) : Prop :=
  ∀ q, q ≠ .smallReceive → ∀ a ∈ k.requests q, a.peer ≠ MSG_HARDWARE

theorem Moves.peersValid {own other : MsgQueue} {caller r : Int} (h : PeersValid k)
    (hm : Moves k own other caller r k') : PeersValid k' := by
  intro q hq a ha
  obtain ⟨p, hp, rfl⟩ := List.mem_map.mp ha
  have old : Kept k k' → p ∈ k.nodes q → (k'.request q p).peer ≠ MSG_HARDWARE := by
    intro hkept hold
    rw [(hkept q p hold hp).2]
    exact h q hq _ (List.mem_map_of_mem hold)
  cases hm with
  | failed => exact h q hq _ (List.mem_map_of_mem hp)
  | woken l₁ l₂ o hl hnodes hheap hkept hstate => exact old hkept (mem_of_removed hl hnodes hp)
  | freed l₁ l₂ j hother hl hnodes hheap hkept hstate =>
      exact old hkept (mem_of_removed hl hnodes hp)
  | blocked node hnodes hheap hcells hmem hkept hpeer hstate =>
      have hp' := hp
      rw [hnodes] at hp'
      rcases (mem_appended _ _ _ _ _).mp hp' with hold | ⟨rfl, rfl⟩
      · exact old hkept hold
      · exact hpeer hq
  | filled node j hown hcaller hfree hnodes hheap hsrc hcells hmem hkept hpeer hstate =>
      have hp' := hp
      rw [hnodes] at hp'
      rcases (mem_appended _ _ _ _ _).mp hp' with hold | ⟨rfl, rfl⟩
      · exact old hkept hold
      · exact hpeer

/-- What one operation does to the slots and to the peers. -/
theorem step_slots {e : Op × Int} (h : Ok L k) (hp : PeersValid k) (hs : Step L k e k') :
    SlotsKept k k' ∧ PeersValid k' := by
  obtain ⟨op, r⟩ := e
  cases op with
  | msg f ebx ecx =>
      have hm := msg_moves h hs
      have hkept : SlotsKept (k.saved L ebx ecx) k' := hm.slotsKept (h.saved ebx ecx)
      refine ⟨hkept, hm.peersValid ?_⟩
      intro q hq a ha
      rw [h.saved_requests] at ha
      exact hp q hq a ha
  | hardware dest msg =>
      have hm := hardware_moves h hs
      exact ⟨hm.slotsKept h, hm.peersValid hp⟩
  | clock cpl =>
      cases (step_cases h hs).2 with
      | clock hst => exact ⟨fun i hi => .inl ⟨hi, rfl⟩, hp⟩
  | read a =>
      cases (step_cases h hs).2 with
      | read h0 ha hr hv => exact ⟨fun i hi => .inl ⟨hi, rfl⟩, hp⟩
  | write a v =>
      cases (step_cases h hs).2 with
      | write h0 ha hw => exact ⟨fun i hi => .inl ⟨hi, rfl⟩, hp⟩
  | kernelStore a v =>
      cases (step_cases h hs).2 with
      | kernelStore ha => exact ⟨fun i hi => .inl ⟨hi, rfl⟩, hp⟩

/-- A message of an interrupt handler to a valid process is refused only if all slots are
queued. -/
theorem hardware_refused (h : Ok L k) (hp : PeersValid k) {dest msg : Int}
    (hdest : 0 ≤ dest ∧ dest < NR_PROCS) (hs : Step L k (.hardware dest msg, -1) k') :
    k.slotsQueued = NR_MSG_HARDWARE := by
  cases (step_cases h hs).2 with
  | hardware hsent =>
      cases hsent with
      | invalid hinv =>
          have hinv : dest < 0 ∨ dest ≥ NR_PROCS := hinv
          omega
      | crossed hz hno hcross =>
          -- nobody but a small receiver waits for the hardware
          obtain ⟨q, hq, a, ha, -, hpeer⟩ := hcross
          exact absurd hpeer (hp q hq a ha)
      | full ho hfull => exact h.slotsQueued_eq fun i hi => h.all_queued hfull hi

/-- **Hardware slots are neither lost nor reused early.** At the end of every run a slot is marked
with `MSG_HARDWARE` exactly if it is linked in the queue of small sends, and then once; in every
transition of the run a queued slot stays as it is or is taken and becomes free; and a message of
an interrupt handler to a valid process fails only when `NR_MSG_HARDWARE` of them wait. -/
theorem hardware_slots {k₀ : Kernel} {tr : List (Kernel × (Op × Int) × Kernel)} (h₀ : Start k₀)
    (hr : Run (Step L) k₀ tr k) :
    (∀ i < NR_MSG_HARDWARE, (k.nodes .smallSend).count (.hardware i)
        = (if (k.heap (.hardware i)).src = MSG_HARDWARE then 1 else 0) ∧
      ∀ q, q ≠ .smallSend → .hardware i ∉ k.nodes q) ∧
    ∀ t ∈ tr, SlotsKept t.1 t.2.2 ∧ ∀ dest msg, 0 ≤ dest → dest < NR_PROCS →
      t.2.1 = (.hardware dest msg, -1) → t.1.slotsQueued = NR_MSG_HARDWARE := by
  have hinv : PeersValid k ∧ ∀ t ∈ tr, SlotsKept t.1 t.2.2 ∧ ∀ dest msg, 0 ≤ dest →
      dest < NR_PROCS → t.2.1 = (.hardware dest msg, -1) →
      t.1.slotsQueued = NR_MSG_HARDWARE := by
    induction hr with
    | nil =>
        refine ⟨?_, by simp⟩
        intro q _ a ha
        rw [h₀.requests] at ha
        cases ha
    | @snoc tr k₁ k₂ e hr hs ih =>
        obtain ⟨hp, hall⟩ := ih
        have hok := run_ok h₀ hr
        obtain ⟨hkept, hp'⟩ := step_slots hok hp hs
        refine ⟨hp', fun t ht => ?_⟩
        rcases List.mem_append.mp ht with ht | ht
        · exact hall t ht
        · rw [List.mem_singleton.mp ht]
          refine ⟨hkept, ?_⟩
          rintro dest msg h0 h1 rfl
          exact hardware_refused hok hp ⟨h0, h1⟩ hs
  exact ⟨fun i hi => (run_ok h₀ hr).slot_marked hi, hinv.2⟩

/-- Two messages of interrupt handlers to process 1 wait in slots 0 and 1; process 2 does not get
the first one, process 1 does, and slot 0 is free again. -/
theorem hardware_slots_received : ∃ tr k, Run (Step (stackLayout 0x18000)) (start blank) tr k ∧
    k.nodes .smallSend = [.hardware 1] ∧ (k.heap (.hardware 0)).src = 0 ∧
    (∀ i < NR_MSG_HARDWARE, (k.nodes .smallSend).count (.hardware i)
        = (if (k.heap (.hardware i)).src = MSG_HARDWARE then 1 else 0) ∧
      ∀ q, q ≠ .smallSend → .hardware i ∉ k.nodes q) ∧
    ∀ t ∈ tr, SlotsKept t.1 t.2.2 ∧ ∀ dest msg, 0 ≤ dest → dest < NR_PROCS →
      t.2.1 = (.hardware dest msg, -1) → t.1.slotsQueued = NR_MSG_HARDWARE := by
  have hex : (execs 0 (stackLayout 0x18000) [.clock 3, .hardware 1 42, .hardware 1 43,
      .msg 2 MSG_HARDWARE 0, .msg 2 MSG_ANY 0] (start blank)).map
      (fun r => (r.2.nodes .smallSend, (r.2.heap (.hardware 0)).src))
      = some ([.hardware 1], 0) := by decide +kernel
  obtain ⟨⟨tr, k⟩, hk, he⟩ := Option.map_eq_some_iff.mp hex
  obtain ⟨hnodes, hsrc⟩ := Prod.mk.injEq .. ▸ he
  have hrun := execs_run hk
  exact ⟨tr, k, hrun, hnodes, hsrc, hardware_slots (start_start blank) hrun⟩

end Mks.Kernel
