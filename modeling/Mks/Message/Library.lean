import Mks.Message.Exchanges

set_option autoImplicit false

/-! # The message functions of the user library (`lib/message.c`)

Each of them executes `int $0x80` once and looks at the registers after it. Whatever the processes
and the interrupts do meanwhile, a send that returns 1 has been received by exactly one receive, and
a receive that returns 1 has stored the sender, and the value if the message is small, of exactly
one send. A call that returns -1 has passed no message (`library_messages`).
-/

namespace Mks

open Kernel

/-- The registers at `int $0x80`, and after it. -/
structure CallRegs where
  eax : Int
  ebx : Int
  ecx : Int

/-- `small_msg_send` and `big_msg_send`, with the value of `*destination`. -/
def msgSend (z : Size) (int80 : CallRegs → CallRegs) (destination msgpt : Int) : Int :=
  let r := int80 ⟨z.sendCode, destination, msgpt⟩
  if r.eax = 1 then 1 else -1

/-- With the value of `*msgpt`. -/
def smallMsgSend : (CallRegs → CallRegs) → Int → Int → Int := msgSend .small

def bigMsgSend : (CallRegs → CallRegs) → Int → Int → Int := msgSend .big

/-- `small_msg_receive`, with what `*source` and `*msgpt` are before and after. Nothing is loaded
into `ecx`. -/
def smallMsgReceive (int80 : CallRegs → CallRegs) (ecx source msgpt : Int) : Int × Int × Int :=
  let r := int80 ⟨2, source, ecx⟩
  if r.eax = 1 then (1, r.ebx, r.ecx) else (-1, source, msgpt)

/-- `big_msg_receive`, with what `*source` is before and after. -/
def bigMsgReceive (int80 : CallRegs → CallRegs) (source msgpt : Int) : Int × Int :=
  let r := int80 ⟨4, source, msgpt⟩
  if r.eax = 1 then (1, r.ebx) else (-1, source)

namespace Kernel

variable {L : Layout} {tr : List (Kernel × (Op × Int) × Kernel)} {k : Kernel}

/-- Process `p` calls the kernel with operation `j`, and goes on in state `n` with the registers
`after`: the result, and what is in the two places where its registers are saved. -/
structure Called (L : Layout) (tr : List (Kernel × (Op × Int) × Kernel)) (k : Kernel) (p : Int)
    (j n : Nat) (before after : CallRegs) : Prop where
  call : ∃ t, tr[j]? = some t ∧ t.1.sched.procCurrent = p ∧
    t.2.1 = (.msg before.eax before.ebx before.ecx, after.eax)
  later : j < n
  inRun : n ≤ tr.length
  awake : (stateAt tr k n).sched.stateOf p ≠ some SLEEPING
  own : ∀ i t, j < i → i < n → tr[i]? = some t → ¬ Calls p t.1 t.2.1
  ebx : after.ebx = (stateAt tr k n).cells (L.ebx p)
  ecx : after.ecx = (stateAt tr k n).cells (L.ecx p)

variable {z : Size} {p : Int} {j n : Nat} {before after : CallRegs} {pairs : List (Nat × Nat)}

/-- The call as an arrival. -/
theorem Called.arrival (h : Called L tr k p j n before after) (z : Size) :
    ((z.exchange L).acts tr)[j]? = some (
      if after.eax ≠ 1 then .skip
      else if before.eax = z.sendCode then .offer ⟨p, before.ebx, z.content p before.ecx⟩
      else if before.eax = z.receiveCode then .request ⟨p, before.ebx, z.buffer L p before.ecx⟩
      else .skip) := by
  obtain ⟨t, ht, rfl, hop⟩ := h.call
  rw [Rendezvous.Exchange.acts, List.getElem?_map, ht, Option.map_some, hop]
  rfl

theorem Called.refused (h : Called L tr k p j n before after) (hr : after.eax ≠ 1)
    (hs : (z.exchange L).Served tr k pairs) :
    j ∉ pairs.map Prod.fst ∧ j ∉ pairs.map Prod.snd := by
  have hact := h.arrival z
  rw [if_pos hr] at hact
  constructor
  · intro hj
    obtain ⟨q, hq, rfl⟩ := List.mem_map.mp hj
    obtain ⟨a, -, -, ha, -⟩ := hs.pair q hq
    cases hact.symm.trans ha
  · intro hj
    obtain ⟨q, hq, rfl⟩ := List.mem_map.mp hj
    obtain ⟨-, b, -, -, hb, -⟩ := hs.pair q hq
    cases hact.symm.trans hb

/-- **A send that is accepted** has been received when the process goes on. -/
theorem Called.sent {dest msg : Int} (h : Called L tr k p j n ⟨z.sendCode, dest, msg⟩ after)
    (hr : after.eax = 1) (hp : 0 ≤ p) (hok : Ok L (stateAt tr k n))
    (hs : (z.exchange L).Served tr k pairs) :
    ∃ i b, (j, i) ∈ pairs ∧ max j i < n ∧ (z.exchange L).RequestAt tr i b ∧ b.owner = dest ∧
      (b.peer = p ∨ b.peer = MSG_ANY) := by
  have ha : (z.exchange L).OfferAt tr j ⟨p, dest, z.content p msg⟩ := by
    rw [Rendezvous.Exchange.OfferAt, h.arrival z, if_neg (not_not.mpr hr), if_pos rfl]
  have hne : p ≠ MSG_HARDWARE := by
    rintro rfl
    exact absurd hp (by decide)
  obtain ⟨i, hi, hlt⟩ := hs.taken n j _ h.later h.inRun ha (hok.not_waiting hne h.awake)
  obtain ⟨a, b, -, ha', hb, hm, -⟩ := hs.pair _ hi
  obtain rfl := Rendezvous.Act.offer.inj (Option.some.inj (ha'.symm.trans ha))
  have hm := of_decide_eq_true hm
  exact ⟨i, b, hi, hlt, hb, hm.1.symm, hm.2⟩

/-- **A receive that is accepted** has got a message, and its registers hold what has been sent. -/
theorem Called.received {src ecx : Int}
    (h : Called L tr k p j n ⟨z.receiveCode, src, ecx⟩ after) (hr : after.eax = 1) (hp : 0 ≤ p)
    (hok : Ok L (stateAt tr k n)) (hs : (z.exchange L).Served tr k pairs) :
    ∃ i a, (i, j) ∈ pairs ∧ max i j < n ∧ (z.exchange L).OfferAt tr i a ∧ a.peer = p ∧
      (src = a.owner ∨ src = MSG_ANY) ∧ after.ebx = a.owner ∧ (z = .small → after.ecx = a.msg) := by
  have hb : (z.exchange L).RequestAt tr j ⟨p, src, z.buffer L p ecx⟩ := by
    rw [Rendezvous.Exchange.RequestAt, h.arrival z, if_neg (not_not.mpr hr),
      if_neg (Size.codes z z).2.1, if_pos rfl]
  have hne : p ≠ MSG_HARDWARE := by
    rintro rfl
    exact absurd hp (by decide)
  obtain ⟨i, hi, hlt⟩ := hs.answered n j _ h.later h.inRun hb (hok.not_waiting hne h.awake)
  obtain ⟨a, b, -, ha, hb', hm, -, -, hgot⟩ := hs.pair _ hi
  obtain rfl := Rendezvous.Act.request.inj (Option.some.inj (hb'.symm.trans hb))
  have hm := of_decide_eq_true hm
  -- no call of the receiver comes between the pair and the return
  obtain ⟨-, hsender, hvalue⟩ := hgot n hlt h.inRun fun m t hm hmn ht =>
    h.own m t (lt_of_le_of_lt (le_max_right i j) hm) hmn ht
  exact ⟨i, a, hi, hlt, ha, hm.1, hm.2, h.ebx.trans hsender, fun hz => h.ecx.trans (hvalue hz)⟩

/-- What the library promises, whatever `int80` makes of other registers than those of the call.
`pairs` are the messages of each size that have been passed: send `i` to receive `j`. -/
structure LibraryMessages (L : Layout) (tr : List (Kernel × (Op × Int) × Kernel)) (k : Kernel)
    (pairs : Size → List (Nat × Nat)) : Prop where
  served : ∀ z : Size, (z.exchange L).Served tr k (pairs z)
  send : ∀ z p j n dest msg after int80, Called L tr k p j n ⟨z.sendCode, dest, msg⟩ after →
    int80 ⟨z.sendCode, dest, msg⟩ = after →
    (msgSend z int80 dest msg = 1 ∧ ∃ i b, (j, i) ∈ pairs z ∧ max j i < n ∧
      (z.exchange L).RequestAt tr i b ∧ b.owner = dest ∧ (b.peer = p ∨ b.peer = MSG_ANY)) ∨
    (msgSend z int80 dest msg = -1 ∧ j ∉ (pairs z).map Prod.fst)
  smallReceive : ∀ p j n src ecx msg after int80, Called L tr k p j n ⟨2, src, ecx⟩ after →
    int80 ⟨2, src, ecx⟩ = after →
    (∃ i a, (i, j) ∈ pairs .small ∧ max i j < n ∧ (Size.small.exchange L).OfferAt tr i a ∧
      a.peer = p ∧ (src = a.owner ∨ src = MSG_ANY) ∧
      smallMsgReceive int80 ecx src msg = (1, a.owner, a.msg)) ∨
    (smallMsgReceive int80 ecx src msg = (-1, src, msg) ∧ j ∉ (pairs .small).map Prod.snd)
  bigReceive : ∀ p j n src msg after int80, Called L tr k p j n ⟨4, src, msg⟩ after →
    int80 ⟨4, src, msg⟩ = after →
    (∃ i a, (i, j) ∈ pairs .big ∧ max i j < n ∧ (Size.big.exchange L).OfferAt tr i a ∧
      a.peer = p ∧ (src = a.owner ∨ src = MSG_ANY) ∧
      bigMsgReceive int80 src msg = (1, a.owner)) ∨
    (bigMsgReceive int80 src msg = (-1, src) ∧ j ∉ (pairs .big).map Prod.snd)

/-- **Messages of the library.** -/
theorem library_messages {k₀ : Kernel} (h₀ : Start k₀) (hr : Run (Step L) k₀ tr k) :
    ∃ pairs, LibraryMessages L tr k pairs := by
  choose pairs hs using fun z => run_served z h₀ hr
  have hcaller : ∀ {p j n before after}, Called L tr k p j n before after → 0 ≤ p := by
    intro p j n before after h
    obtain ⟨t, ht, rfl, -⟩ := h.call
    obtain ⟨heq, -⟩ := hr.stateAt_step ht
    have hok := run_ok_at h₀ hr (List.getElem?_eq_some_iff.mp ht).1.le
    exact (heq ▸ hok).current_bound.1
  refine ⟨pairs, hs, ?_, ?_, ?_⟩
  · rintro z p j n dest msg after int80 h rfl
    by_cases hone : (int80 ⟨z.sendCode, dest, msg⟩).eax = 1
    · exact .inl ⟨if_pos hone, h.sent hone (hcaller h) (run_ok_at h₀ hr h.inRun) (hs z)⟩
    · exact .inr ⟨if_neg hone, (h.refused hone (hs z)).1⟩
  · rintro p j n src ecx msg after int80 h rfl
    by_cases hone : (int80 ⟨2, src, ecx⟩).eax = 1
    · obtain ⟨i, a, hi, hlt, ha, hpeer, hsrc, hebx, hecx⟩ :=
        Called.received (z := .small) h hone (hcaller h) (run_ok_at h₀ hr h.inRun) (hs .small)
      refine .inl ⟨i, a, hi, hlt, ha, hpeer, hsrc, ?_⟩
      rw [smallMsgReceive, if_pos hone, hebx, hecx rfl]
    · exact .inr ⟨if_neg hone, (h.refused hone (hs .small)).2⟩
  · rintro p j n src msg after int80 h rfl
    by_cases hone : (int80 ⟨4, src, msg⟩).eax = 1
    · obtain ⟨i, a, hi, hlt, ha, hpeer, hsrc, hebx, -⟩ :=
        Called.received (z := .big) h hone (hcaller h) (run_ok_at h₀ hr h.inRun) (hs .big)
      refine .inl ⟨i, a, hi, hlt, ha, hpeer, hsrc, ?_⟩
      rw [bigMsgReceive, if_pos hone, hebx]
    · exact .inr ⟨if_neg hone, (h.refused hone (hs .big)).2⟩

/-- Process 2 receives a message of the hardware. -/
theorem library_messages_hardware : ∃ tr k pairs,
    Run (Step (stackLayout 0x18000)) (start blank) tr k ∧
    tr.map (fun t => t.2.1) = [(.hardware 2 7, 1), (.msg 2 (-1) 0, 1)] ∧
    Called (stackLayout 0x18000) tr k 2 1 2 ⟨2, -1, 0⟩ ⟨1, MSG_HARDWARE, 7⟩ ∧
    (∀ int80, int80 ⟨2, -1, 0⟩ = ⟨1, MSG_HARDWARE, 7⟩ →
      smallMsgReceive int80 0 (-1) 0 = (1, MSG_HARDWARE, 7)) ∧
    LibraryMessages (stackLayout 0x18000) tr k pairs := by
  have hex : (execs 0 (stackLayout 0x18000) [.hardware 2 7, .msg 2 (-1) 0] (start blank)).map
      (fun r => (r.1.map fun t => (t.1.sched.procCurrent, t.2.1), r.2.sched.stateOf 2,
        r.2.cells ((stackLayout 0x18000).ebx 2), r.2.cells ((stackLayout 0x18000).ecx 2)))
      = some ([(0, (.hardware 2 7, 1)), (2, (.msg 2 (-1) 0, 1))], some RUNNING, MSG_HARDWARE, 7) := by
    decide +kernel
  obtain ⟨⟨tr, k⟩, hk, he⟩ := Option.map_eq_some_iff.mp hex
  simp only [Prod.mk.injEq] at he
  obtain ⟨htr, hrun, hebx, hecx⟩ := he
  have hlen : tr.length = 2 := by simpa using congrArg List.length htr
  obtain ⟨pairs, h⟩ := library_messages (start_start blank) (execs_run hk)
  refine ⟨tr, k, pairs, execs_run hk, ?_, ?_, fun int80 hi => by simp [smallMsgReceive, hi], h⟩
  · have hlabels := congrArg (List.map Prod.snd) htr
    rw [List.map_map] at hlabels
    exact hlabels
  · have hlast : stateAt tr k 2 = k := stateAt_last hlen.le
    refine ⟨?_, by decide, hlen.ge, ?_, fun i t hi hn => by omega, ?_, ?_⟩
    · have hone := congrArg (fun l => l[1]?) htr
      rw [List.getElem?_map] at hone
      obtain ⟨t, ht, heq⟩ := Option.map_eq_some_iff.mp hone
      exact ⟨t, ht, congrArg Prod.fst heq, congrArg Prod.snd heq⟩
    · rw [hlast, hrun]
      decide
    · rw [hlast, hebx]
    · rw [hlast, hecx]

end Kernel

end Mks
