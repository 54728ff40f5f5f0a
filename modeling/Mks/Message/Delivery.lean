import Mks.Message.Exchanges

set_option autoImplicit false

/-! # Delivery of small messages

Small messages are delivered exactly once, unaltered and in order (`small_messages_delivered`): that
is their `Exchange`, said of the sends and receives of a run, and of who sleeps.
-/

namespace Mks.Kernel

variable {L : Layout} {k : Kernel} {tr : List (Kernel × (Op × Int) × Kernel)}

/-- Operation `i` is a send of a small message that is accepted. -/
def SendAt (L : Layout) (tr : List (Kernel × (Op × Int) × Kernel)) (i : Nat) (a : Request) : Prop :=
  (Size.small.exchange L).OfferAt tr i a

def ReceiveAt (L : Layout) (tr : List (Kernel × (Op × Int) × Kernel)) (j : Nat) (b : Request) :
    Prop := (Size.small.exchange L).RequestAt tr j b

/-- Receiver `b` runs, and its registers hold the value and the sender of message `a`. -/
structure Got (L : Layout) (k : Kernel) (a b : Request) : Prop where
  runs : k.sched.stateOf b.owner = some RUNNING
  value : k.cells (L.ecx b.owner) = a.msg
  sender : k.cells (L.ebx b.owner) = a.owner

/-- The pairs `(i, j)` match the accepted sends and receives of a run: receive `j` has got the
message of send `i`. A pair is complete after both of its operations. -/
structure Delivery (L : Layout) (tr : List (Kernel × (Op × Int) × Kernel)) (k : Kernel)
    (pairs : List (Nat × Nat)) : Prop where
  /-- The message is for the receiver, and from the process it asked for. The receiver runs and
  finds value and sender in its registers, until its next call. -/
  pair : ∀ p ∈ pairs, ∃ a b, SendAt L tr p.1 a ∧ ReceiveAt L tr p.2 b ∧ a.peer = b.owner ∧
    (b.peer = a.owner ∨ b.peer = MSG_ANY) ∧
    ∀ n, max p.1 p.2 < n → n ≤ tr.length →
      (∀ m t, max p.1 p.2 < m → m < n → tr[m]? = some t → ¬ Calls b.owner t.1 t.2.1) →
      Got L (stateAt tr k n) a b
  sentOnce : (pairs.map Prod.fst).Nodup
  receivedOnce : (pairs.map Prod.snd).Nodup
  /-- A receive whose caller does not sleep any more is complete. -/
  completed : ∀ n j b, j < n → n ≤ tr.length → ReceiveAt L tr j b →
    (stateAt tr k n).sched.stateOf b.owner ≠ some SLEEPING →
    ∃ i, (i, j) ∈ pairs ∧ max i j < n
  /-- So is a send of a process. -/
  resumed : ∀ n i a, i < n → n ≤ tr.length → SendAt L tr i a → a.owner ≠ MSG_HARDWARE →
    (stateAt tr k n).sched.stateOf a.owner ≠ some SLEEPING →
    ∃ j, (i, j) ∈ pairs ∧ max i j < n
  /-- An earlier send that the receive could have got was received earlier. -/
  order : ∀ p ∈ pairs, ∀ i a b, i < p.1 → SendAt L tr i a → ReceiveAt L tr p.2 b →
    meets a b = true → ∃ j, (i, j) ∈ pairs ∧ max i j < max p.1 p.2

/-- **Small messages are delivered exactly once, unaltered and in order.** -/
theorem small_messages_delivered {k₀ : Kernel} (h₀ : Start k₀) (hr : Run (Step L) k₀ tr k) :
    ∃ pairs, Delivery L tr k pairs := by
  obtain ⟨pairs, hserved⟩ := run_served .small h₀ hr
  refine ⟨pairs, ?_, hserved.offeredOnce, hserved.requestedOnce, ?_, ?_, hserved.order⟩
  · intro p hp
    obtain ⟨a, b, -, ha, hb, hm, -, -, hgot⟩ := hserved.pair p hp
    obtain ⟨hpeer, hsrc⟩ := of_decide_eq_true hm
    refine ⟨a, b, ha, hb, hpeer, hsrc, fun n hlt hle hcalls => ?_⟩
    have h : Size.small.Got L (stateAt tr k n) a b := hgot n hlt hle hcalls
    exact ⟨h.runs, h.value rfl, h.sender⟩
  · intro n j b hj hn hb hs
    exact hserved.answered n j b hj hn hb fun hw => by
      rcases (run_ok_at h₀ hr hn).owner_asleep (q := .smallReceive) hw with hsleep | ⟨-, hq⟩
      · exact hs hsleep
      · cases hq
  · intro n i a hi hn ha hne hs
    exact hserved.taken n i a hi hn ha ((run_ok_at h₀ hr hn).not_waiting hne hs)

/-- Two hardware messages to process 2, which then receives the first of them. -/
theorem small_messages_delivered_hardware : ∃ tr k pairs,
    Run (Step (stackLayout 0x18000)) (start blank) tr k ∧
    tr.map (fun t => t.2.1) = [(.hardware 2 7, 1), (.hardware 2 8, 1), (.msg 2 (-1) 0, 1)] ∧
    k.cells ((stackLayout 0x18000).ecx 2) = 7 ∧ Delivery (stackLayout 0x18000) tr k pairs := by
  have hex : (execs 0 (stackLayout 0x18000) [.hardware 2 7, .hardware 2 8, .msg 2 (-1) 0]
      (start blank)).map
      (fun r => (r.1.map fun t => t.2.1, r.2.cells ((stackLayout 0x18000).ecx 2)))
      = some ([(.hardware 2 7, 1), (.hardware 2 8, 1), (.msg 2 (-1) 0, 1)], 7) := by
    decide +kernel
  obtain ⟨⟨tr, k⟩, hk, he⟩ := Option.map_eq_some_iff.mp hex
  obtain ⟨hlabels, hcell⟩ := Prod.mk.injEq .. ▸ he
  obtain ⟨pairs, h⟩ := small_messages_delivered (start_start blank) (execs_run hk)
  exact ⟨tr, k, pairs, execs_run hk, hlabels, hcell, h⟩

end Mks.Kernel
