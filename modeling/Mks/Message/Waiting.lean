import Mks.Message.System

set_option autoImplicit false

/-! # Waiting for each other

Two facts about the requests that wait in the four queues: no waiting sender meets a waiting
receiver (`no_missed_rendezvous`), and no two processes wait for each other (`no_two_cycle`).

The second one needs a condition. `small_send`, `small_receive` and `big_receive` refuse a call
to a process that waits for the caller, but the loops of `big_send` that should do so compare an
address with the number of a process and never find anything (`Unchecked`).
-/

namespace Mks.Kernel

variable {L : Layout} {k : Kernel}

/-! ## Changes of the queues -/

@[simp] theorem Size.send_ne_receive (z z' : Size) : z.send ≠ z'.receive := by
  cases z <;> cases z' <;> decide

@[simp] theorem Size.send_inj {z z' : Size} : z.send = z'.send ↔ z = z' := by
  cases z <;> cases z' <;> decide

@[simp] theorem Size.receive_inj {z z' : Size} : z.receive = z'.receive ↔ z = z' := by
  cases z <;> cases z' <;> decide

theorem mem_update_removed {R : MsgQueue → List Request} {q q' : MsgQueue} {l₁ l₂ : List Request}
    {a b : Request} (hl : R q = l₁ ++ b :: l₂) (ha : a ∈ Function.update R q (l₁ ++ l₂) q') :
    a ∈ R q' := by
  by_cases hq : q' = q
  · subst hq
    rw [Function.update_self] at ha
    rw [hl]
    simp only [List.mem_append, List.mem_cons] at ha ⊢
    tauto
  · rwa [Function.update_of_ne hq] at ha

theorem mem_update_queued {R : MsgQueue → List Request} {q q' : MsgQueue} {a b : Request} :
    a ∈ Function.update R q (R q ++ [b]) q' ↔ a ∈ R q' ∨ q' = q ∧ a = b := by
  by_cases hq : q' = q
  · subst hq
    simp
  · simp [hq]

/-- What an operation does to the waiting requests: nothing, it serves some, or it queues one
that could not be served. -/
inductive Change (L : Layout) (k : Kernel) (e : Op × Int) (k' : Kernel) : Prop
  | fewer (h : ∀ q, ∀ a ∈ k'.requests q, a ∈ k.requests q)
  | send (z : Size) (a : Request) (hno : ∀ b ∈ k.requests z.receive, meets a b = false)
      (hcross : z = .small → ¬ k.Crossed z.receive a.peer a.owner)
      (hbig : z = .big → ∃ ebx ecx, e.1 = .msg 3 ebx ecx ∧ a.peer = ebx ∧
        a.owner = k.sched.procCurrent)
      (h : k'.requests = Function.update k.requests z.send (k.requests z.send ++ [a]))
  | receive (z : Size) (b : Request) (hno : ∀ a ∈ k.requests z.send, meets a b = false)
      (hcross : ¬ k.Crossed z.send b.peer b.owner)
      (h : k'.requests = Function.update k.requests z.receive (k.requests z.receive ++ [b]))

theorem crossed_congr {k' : Kernel} (h : k'.requests = k.requests) (q : MsgQueue) (other me : Int) :
    k'.Crossed q other me ↔ k.Crossed q other me := by
  rw [Crossed, Crossed, h]

theorem Sent.change {z : Size} {a : Request} {e : Op × Int} {r : Int} {k₀ k' : Kernel}
    (h : Sent L k₀ z a r k') (hk₀ : k₀.requests = k.requests)
    (hbig : z = .big → ∃ ebx ecx, e.1 = .msg 3 ebx ecx ∧ a.peer = ebx ∧
      a.owner = k.sched.procCurrent) : Change L k e k' := by
  cases h with
  | invalid h => exact .fewer fun q a ha => hk₀ ▸ ha
  | crossed hz hno h => exact .fewer fun q a ha => hk₀ ▸ ha
  | full ha h => exact .fewer fun q a ha => hk₀ ▸ ha
  | delivered l₁ l₂ b hl hb hl₁ hreq hcells hmem hstate =>
      refine .fewer fun q x hx => ?_
      rw [hreq, hk₀] at hx
      exact mem_update_removed (hk₀ ▸ hl) hx
  | queued hno hcross hreq hcells hmem hstate =>
      refine .send z a (hk₀ ▸ hno) (fun hz => ?_) hbig (hk₀ ▸ hreq)
      rw [← crossed_congr hk₀]
      exact hcross hz

theorem Received.change {z : Size} {b : Request} {e : Op × Int} {r : Int} {k₀ k' : Kernel}
    (h : Received L k₀ z b r k') (hk₀ : k₀.requests = k.requests) : Change L k e k' := by
  cases h with
  | invalid h => exact .fewer fun q a ha => hk₀ ▸ ha
  | crossed hno h => exact .fewer fun q a ha => hk₀ ▸ ha
  | taken l₁ l₂ a hl ha hl₁ hreq hcells hmem hstate =>
      refine .fewer fun q x hx => ?_
      rw [hreq, hk₀] at hx
      exact mem_update_removed (hk₀ ▸ hl) hx
  | queued hno hcross hreq hcells hmem hstate =>
      refine .receive z b (hk₀ ▸ hno) ?_ (hk₀ ▸ hreq)
      rw [← crossed_congr hk₀]
      exact hcross

/-- The change that an operation makes. -/
theorem step_change {e : Op × Int} {k' : Kernel} (h : Ok L k) (hs : Step L k e k') :
    Change L k e k' := by
  cases (step_cases h hs).2 with
  | rejected h0 hr => exact .fewer fun q a ha => h.saved_requests _ _ ▸ ha
  | sent z h0 hne hsent =>
      refine hsent.change (h.saved_requests _ _) fun hz => ?_
      subst hz
      exact ⟨_, _, rfl, rfl, rfl⟩
  | received z h0 hne hrec => exact hrec.change (h.saved_requests _ _)
  | hardware hsent => exact hsent.change rfl fun hz => by cases hz
  | clock hst => exact .fewer fun q a ha => ha
  | read h0 ha hread hr => exact .fewer fun q a ha => ha
  | write h0 ha hwrite => exact .fewer fun q a ha => ha
  | kernelStore ha => exact .fewer fun q a ha => ha

/-! ## No missed rendezvous -/

/-- No waiting sender can be served together with a waiting receiver. -/
def NoMeeting (k : Kernel) : Prop :=
  ∀ z : Size, ∀ a ∈ k.requests z.send, ∀ b ∈ k.requests z.receive, meets a b = false

theorem Change.noMeeting {e : Op × Int} {k' : Kernel} (hc : Change L k e k') (h : NoMeeting k) :
    NoMeeting k' := by
  intro z a ha b hb
  cases hc with
  | fewer hsub => exact h z a (hsub _ _ ha) b (hsub _ _ hb)
  | send z' a' hno hcross hbig hreq =>
      rw [hreq] at ha hb
      rw [mem_update_queued] at ha hb
      have hb' := hb.resolve_right fun hb => Size.send_ne_receive z' z hb.1.symm
      rcases ha with ha | ⟨hz, rfl⟩
      · exact h z a ha b hb'
      · obtain rfl := Size.send_inj.mp hz
        exact hno b hb'
  | receive z' b' hno hcross hreq =>
      rw [hreq] at ha hb
      rw [mem_update_queued] at ha hb
      have ha' := ha.resolve_right fun ha => Size.send_ne_receive z z' ha.1
      rcases hb with hb | ⟨hz, rfl⟩
      · exact h z a ha' b hb
      · obtain rfl := Size.receive_inj.mp hz
        exact hno a ha'

/-- **No rendezvous is missed**, in every run of the kernel. -/
theorem no_missed_rendezvous {k₀ : Kernel} {tr : List (Kernel × (Op × Int) × Kernel)}
    (h₀ : Start k₀) (hr : Run (Step L) k₀ tr k) : ∀ z : Size, ∀ a ∈ k.requests z.send,
      ∀ b ∈ k.requests z.receive, ¬ (a.peer = b.owner ∧ (b.peer = a.owner ∨ b.peer = MSG_ANY)) := by
  have hinv : Ok L k ∧ NoMeeting k := by
    refine hr.invariant (I := fun k => Ok L k ∧ NoMeeting k) ⟨h₀.ok, ?_⟩ fun h hs => ?_
    · intro z a ha
      rw [h₀.requests] at ha
      cases ha
    · exact ⟨(step_cases h.1 hs).1, (step_change h.1 hs).noMeeting h.2⟩
  exact fun z a ha b hb => of_decide_eq_false (hinv.2 z a ha b hb)

/-- Process 2 waits for a message from process 1, for which a hardware message is queued. -/
theorem no_missed_rendezvous_hardware : ∃ tr k,
    Run (Step (stackLayout 0x18000)) (start blank) tr k ∧
    (k.requests .smallSend).map (fun a => (a.owner, a.peer)) = [(MSG_HARDWARE, 1)] ∧
    (k.requests .smallReceive).map (fun a => (a.owner, a.peer)) = [(2, 1)] ∧
    ∀ z : Size, ∀ a ∈ k.requests z.send, ∀ b ∈ k.requests z.receive,
      ¬ (a.peer = b.owner ∧ (b.peer = a.owner ∨ b.peer = MSG_ANY)) := by
  have hex : (execs 0 (stackLayout 0x18000) [.clock 3, .msg 2 1 0, .hardware 1 42]
      (start blank)).map (fun r => ((r.2.requests .smallSend).map fun a => (a.owner, a.peer),
        (r.2.requests .smallReceive).map fun a => (a.owner, a.peer)))
      = some ([(MSG_HARDWARE, 1)], [(2, 1)]) := by decide +kernel
  obtain ⟨⟨tr, k⟩, hk, he⟩ := Option.map_eq_some_iff.mp hex
  obtain ⟨hs, hr⟩ := Prod.mk.injEq .. ▸ he
  exact ⟨tr, k, execs_run hk, hs, hr, no_missed_rendezvous (start_start blank) (execs_run hk)⟩

/-! ## No two processes wait for each other -/

/-- Process `p` waits for process `q`: `p` has a send to `q` pending, or a receive from exactly
`q`. -/
def WaitsOn (k : Kernel) (p q : Int) : Prop :=
  ∃ qu, ∃ a ∈ k.requests qu, a.owner = p ∧ a.peer = q

/-- A `big_send` to a process that waits for the caller otherwise than in `big_receive`. -/
def Unchecked (k : Kernel) : Op → Prop
  | .msg 3 ebx _ => k.Crossed .bigReceive ebx k.sched.procCurrent
  | _ => False

def NoCycle (k : Kernel) : Prop :=
  ∀ p q, 0 ≤ p → 0 ≤ q → p ≠ q → ¬ (k.WaitsOn p q ∧ k.WaitsOn q p)

/-- A new request closes no cycle if its peer does not wait for its owner. -/
theorem noCycle_queued {k' : Kernel} {qu : MsgQueue} {a : Request} (h : NoCycle k)
    (hreq : k'.requests = Function.update k.requests qu (k.requests qu ++ [a]))
    (ha : ¬ k.WaitsOn a.peer a.owner) : NoCycle k' := by
  have hold : ∀ {p q}, k'.WaitsOn p q → k.WaitsOn p q ∨ p = a.owner ∧ q = a.peer := by
    rintro p q ⟨qu', c, hc, rfl, rfl⟩
    rw [hreq, mem_update_queued] at hc
    rcases hc with hc | ⟨-, rfl⟩
    · exact .inl ⟨qu', c, hc, rfl, rfl⟩
    · exact .inr ⟨rfl, rfl⟩
  rintro p q hp hq hne ⟨hpq, hqp⟩
  rcases hold hpq with hpq | ⟨rfl, rfl⟩ <;> rcases hold hqp with hqp | ⟨he, he'⟩
  · exact h p q hp hq hne ⟨hpq, hqp⟩
  · exact ha (he ▸ he' ▸ hpq)
  · exact ha hqp
  · exact hne he'

/-- The peer of a request that is queued in a send queue does not wait for its owner. -/
theorem not_waitsOn_of_send {z : Size} {a : Request}
    (hno : ∀ b ∈ k.requests z.receive, meets a b = false)
    (hcross : ¬ k.Crossed z.receive a.peer a.owner) : ¬ k.WaitsOn a.peer a.owner := by
  rintro ⟨qu, c, hc, hown, hpeer⟩
  by_cases hq : qu = z.receive
  · subst hq
    have := hno c hc
    exact absurd ⟨hown.symm, .inl hpeer⟩ (of_decide_eq_false this)
  · exact hcross ⟨qu, hq, c, hc, hown, hpeer⟩

theorem not_waitsOn_of_receive {z : Size} {b : Request}
    (hno : ∀ a ∈ k.requests z.send, meets a b = false)
    (hcross : ¬ k.Crossed z.send b.peer b.owner) : ¬ k.WaitsOn b.peer b.owner := by
  rintro ⟨qu, c, hc, hown, hpeer⟩
  by_cases hq : qu = z.send
  · subst hq
    have := hno c hc
    exact absurd ⟨hpeer, .inl hown.symm⟩ (of_decide_eq_false this)
  · exact hcross ⟨qu, hq, c, hc, hown, hpeer⟩

theorem Change.noCycle {e : Op × Int} {k' : Kernel} (hc : Change L k e k') (h : NoCycle k)
    (hu : ¬ k.Unchecked e.1) : NoCycle k' := by
  cases hc with
  | fewer hsub =>
      rintro p q hp hq hne ⟨⟨qu, a, ha, hpq⟩, ⟨qu', b, hb, hqp⟩⟩
      exact h p q hp hq hne ⟨⟨qu, a, hsub _ _ ha, hpq⟩, ⟨qu', b, hsub _ _ hb, hqp⟩⟩
  | send z a hno hcross hbig hreq =>
      refine noCycle_queued h hreq (not_waitsOn_of_send hno ?_)
      cases z with
      | small => exact hcross rfl
      | big =>
          obtain ⟨ebx, ecx, he, hpeer, hown⟩ := hbig rfl
          rw [he] at hu
          rw [hpeer, hown]
          exact hu
  | receive z b hno hcross hreq =>
      exact noCycle_queued h hreq (not_waitsOn_of_receive hno hcross)

/-- A call of process `p` to a process that waits for it does not block: it is refused, or it
serves the request that waits. -/
def Answered (L : Layout) (t : Kernel × (Op × Int) × Kernel) : Prop :=
  ∀ f ebx ecx, t.2.1.1 = .msg f ebx ecx → 0 ≤ ebx → t.1.WaitsOn ebx t.1.sched.procCurrent →
    t.2.1.2 = -1 ∧ t.2.2 = t.1.saved L ebx ecx ∨
    t.2.1.2 = 1 ∧ t.2.2.sched.stateOf t.1.sched.procCurrent = some RUNNING ∧
      t.2.2.sched.stateOf ebx = some RUNNING

theorem step_answered {e : Op × Int} {k' : Kernel} (h : Ok L k) (hs : Step L k e k')
    (hu : ¬ k.Unchecked e.1) : Answered L (k, e, k') := by
  intro f ebx ecx he hge hw
  have hrun := Sched.currentRuns_iff.mp h.runs
  have hk₀ := h.saved_requests ebx ecx
  cases (step_cases h hs).2 with
  | rejected h0 hr =>
      cases he
      exact .inl ⟨rfl, rfl⟩
  | sent z h0 hne hsent =>
      cases he
      cases hsent with
      | invalid h => exact .inl ⟨rfl, rfl⟩
      | crossed hz hno h => exact .inl ⟨rfl, rfl⟩
      | full ha h => exact .inl ⟨rfl, rfl⟩
      | delivered l₁ l₂ b hl hb hl₁ hreq hcells hmem hstate =>
          refine .inr ⟨rfl, ?_, ?_⟩
          · show Sched.stateOf _ _ = _
            rw [hstate, Function.update_of_ne (Ne.symm hne)]
            exact hrun
          · show Sched.stateOf _ _ = _
            rw [hstate]
            exact Function.update_self ..
      | queued hno hcross hreq hcells hmem hstate =>
          refine absurd hw (not_waitsOn_of_send (a := ⟨k.sched.procCurrent, ebx, _⟩) (hk₀ ▸ hno) ?_)
          rw [← crossed_congr hk₀]
          cases z with
          | small => exact hcross rfl
          | big =>
              rw [crossed_congr hk₀]
              exact hu
  | received z h0 hne hrec =>
      cases he
      cases hrec with
      | invalid h => exact .inl ⟨rfl, rfl⟩
      | crossed hno h => exact .inl ⟨rfl, rfl⟩
      | taken l₁ l₂ a hl ha hl₁ hreq hcells hmem hstate =>
          -- the message taken is the one of `ebx`, which is not `MSG_ANY`
          have hown : a.owner = ebx := by
            rcases (of_decide_eq_true ha).2 with ho | ho
            · exact ho.symm
            · have : ebx = -1 := ho
              omega
          rw [hown, if_neg (by simp only [MSG_HARDWARE]; omega)] at hstate
          refine .inr ⟨rfl, ?_, ?_⟩
          · show Sched.stateOf _ _ = _
            rw [hstate, Function.update_of_ne (Ne.symm hne)]
            exact hrun
          · show Sched.stateOf _ _ = _
            rw [hstate]
            exact Function.update_self ..
      | queued hno hcross hreq hcells hmem hstate =>
          refine absurd hw
            (not_waitsOn_of_receive (b := ⟨k.sched.procCurrent, ebx, _⟩) (hk₀ ▸ hno) ?_)
          rw [← crossed_congr hk₀]
          exact hcross
  | hardware hsent => cases he
  | clock hst => cases he
  | read h0 ha hread hr => cases he
  | write h0 ha hwrite => cases he
  | kernelStore ha => cases he

/-- **No two-cycle.** In every run without an unchecked `big_send`, no two processes wait for each
other, and a call that would close such a cycle returns at once. -/
theorem no_two_cycle {k₀ : Kernel} {tr : List (Kernel × (Op × Int) × Kernel)} (h₀ : Start k₀)
    (hr : Run (Step L) k₀ tr k) (hc : ∀ t ∈ tr, ¬ t.1.Unchecked t.2.1.1) :
    NoCycle k ∧ ∀ t ∈ tr, Answered L t := by
  induction hr with
  | nil =>
      refine ⟨?_, by simp⟩
      rintro p q - - - ⟨⟨qu, a, ha, -⟩, -⟩
      rw [h₀.requests] at ha
      cases ha
  | @snoc tr k₁ k₂ e hr hs ih =>
      obtain ⟨hno, hall⟩ := ih fun t ht => hc t (by simp [ht])
      have hok := run_ok h₀ hr
      have hu := hc (k₁, e, k₂) (by simp)
      refine ⟨(step_change hok hs).noCycle hno hu, fun t ht => ?_⟩
      rcases List.mem_append.mp ht with ht | ht
      · exact hall t ht
      · rw [List.mem_singleton.mp ht]
        exact step_answered hok hs hu

/-- Process 2 blocks in a small send to process 1, whose send to process 2 is then refused. -/
theorem no_two_cycle_small : ∃ tr k, Run (Step (stackLayout 0x18000)) (start blank) tr k ∧
    tr.map (fun t => t.2.1) = [(.clock 3, 0), (.msg 1 1 7, 1), (.msg 1 2 9, -1)] ∧
    NoCycle k ∧ ∀ t ∈ tr, Answered (stackLayout 0x18000) t := by
  have hex : (execs 0 (stackLayout 0x18000) [.clock 3, .msg 1 1 7, .msg 1 2 9] (start blank)).map
      (fun r => r.1.map fun t => t.2.1)
      = some [(.clock 3, 0), (.msg 1 1 7, 1), (.msg 1 2 9, -1)] := by decide +kernel
  obtain ⟨⟨tr, k⟩, hk, he⟩ := Option.map_eq_some_iff.mp hex
  have hr := execs_run hk
  refine ⟨tr, k, hr, he, no_two_cycle (start_start blank) hr fun t ht hu => ?_⟩
  -- no operation of the run is a big send
  have hop := List.mem_map_of_mem (f := fun t => t.2.1) ht
  rw [show tr.map (fun t => t.2.1) = _ from he] at hop
  simp only [List.mem_cons, List.not_mem_nil, or_false] at hop
  rcases hop with hop | hop | hop <;> rw [hop] at hu <;> exact hu

/-- Two processes that wait for each other: process 2 sends a big message to process 1, and
process 1 one to process 2. -/
theorem two_cycle : ∃ tr k, Run (Step (stackLayout 0x18000)) (start blank) tr k ∧
    tr.map (fun t => t.2.1) = [(.clock 3, 0), (.msg 3 1 0, 1), (.msg 3 2 0, 1)] ∧
    k.WaitsOn 1 2 ∧ k.WaitsOn 2 1 := by
  have hex : (execs 0 (stackLayout 0x18000) [.clock 3, .msg 3 1 0, .msg 3 2 0] (start blank)).map
      (fun r => (r.1.map fun t => t.2.1, (r.2.requests .bigSend).map fun a => (a.owner, a.peer)))
      = some ([(.clock 3, 0), (.msg 3 1 0, 1), (.msg 3 2 0, 1)], [(2, 1), (1, 2)]) := by
    decide +kernel
  obtain ⟨⟨tr, k⟩, hk, he⟩ := Option.map_eq_some_iff.mp hex
  obtain ⟨hlabels, hreq⟩ := Prod.mk.injEq .. ▸ he
  have hwaits : ∀ p q, (p, q) ∈ [((2 : Int), (1 : Int)), (1, 2)] → k.WaitsOn p q := by
    intro p q hpq
    rw [← hreq] at hpq
    obtain ⟨a, ha, hpa⟩ := List.mem_map.mp hpq
    obtain ⟨hown, hpeer⟩ := Prod.mk.injEq .. ▸ hpa
    exact ⟨.bigSend, a, ha, hown, hpeer⟩
  exact ⟨tr, k, execs_run hk, hlabels, hwaits 1 2 (by simp), hwaits 2 1 (by simp)⟩

end Mks.Kernel
