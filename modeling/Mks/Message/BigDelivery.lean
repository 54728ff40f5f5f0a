import Mks.Message.BigMessage
import Mks.Message.Exchanges

set_option autoImplicit false

/-! # Big messages as an exchange

Big messages are delivered exactly once and in order (`big_messages_delivered`): the later call of
each pair of a send and a receive shares the sender's page with the receiver, and no other message
touches the memory.
-/

namespace Mks.Kernel

open Mem

variable {L : Layout} {k k' : Kernel} {tr : List (Kernel × (Op × Int) × Kernel)}

/-- An accepted operation has a pair when it is a call that pairs. -/
theorem big_out_iff {op : Op} {a b : Request} (h0 : k.sched.procCurrent ≠ PROC_IDLE_NR) :
    Size.big.out L k (op, 1) = some (a, b) ↔ Pairs k op a b := by
  constructor
  · intro ho
    cases op with
    | msg f peer buf =>
        by_cases h3 : f = 3
        · subst h3
          obtain ⟨b', hb, he⟩ := Option.map_eq_some_iff.mp ho
          obtain ⟨rfl, rfl⟩ := Prod.mk.injEq .. ▸ he
          exact .send h0 hb
        · by_cases h4 : f = 4
          · subst h4
            obtain ⟨a', ha, he⟩ := Option.map_eq_some_iff.mp ho
            obtain ⟨rfl, rfl⟩ := Prod.mk.injEq .. ▸ he
            exact .receive h0 ha
          · simp [Size.out, Size.act, Size.sendCode, Size.receiveCode, h3, h4] at ho
    | hardware dest msg => simp [Size.out, Size.act] at ho
    | clock cpl => cases ho
    | read x => cases ho
    | write x v => cases ho
    | kernelStore x v => cases ho
  · intro hp
    cases hp with
    | send _ hb => exact Option.map_eq_some_iff.mpr ⟨b, hb, rfl⟩
    | receive _ ha => exact Option.map_eq_some_iff.mpr ⟨a, ha, rfl⟩

/-- An operation that passes messages. -/
def Op.isMessage : Op → Bool
  | .msg _ _ _ | .hardware _ _ => true
  | _ => false

theorem big_out_shares {e : Op × Int} {a b : Request} (h : Ok L k) (hs : Step L k e k')
    (ho : Size.big.out L k e = some (a, b)) :
    ∃ n, k.mem.sharePage n a.addr b.addr = some k'.mem := by
  obtain ⟨op, r⟩ := e
  cases op with
  | msg f peer buf =>
      by_cases hr : r = 1
      · subst hr
        exact (((big_out_iff (step_caller hs)).mp ho).shares h hs).2
      · simp [Size.out, Size.act, hr] at ho
  | hardware dest msg => simp [Size.out, Size.act] at ho
  | _ => cases ho

theorem big_out_none {e : Op × Int} (h : Ok L k) (hs : Step L k e k')
    (hop : Op.isMessage e.1 = true) (ho : Size.big.out L k e = none) : k'.mem = k.mem := by
  obtain ⟨op, r⟩ := e
  cases op with
  | msg f peer buf =>
      refine unpaired_mem h hs fun a b hp => ?_
      obtain ⟨rfl, -⟩ := hp.shares h hs
      cases ho.symm.trans ((big_out_iff (step_caller hs)).mpr hp)
  | hardware dest msg =>
      cases (step_cases h hs).2 with
      | hardware hsent =>
          cases hsent with
          | invalid _ | crossed | full => rfl
          | queued hno hcross hreq hcells hmem hstate => exact hmem
          | delivered l₁ l₂ b hl hb hl₁ hreq hcells hmem hstate => exact hmem
  | _ => cases hop

/-- Sends and receives of big messages are served in pairs. -/
structure BigDelivery (L : Layout) (tr : List (Kernel × (Op × Int) × Kernel)) (k : Kernel)
    (pairs : List (Nat × Nat)) : Prop extends (Size.big.exchange L).Served tr k pairs where
  /-- A sender that does not sleep any more has been served. -/
  sent : ∀ n i a, i < n → n ≤ tr.length → (Size.big.exchange L).OfferAt tr i a →
    (stateAt tr k n).sched.stateOf a.owner ≠ some SLEEPING → ∃ j, (i, j) ∈ pairs ∧ max i j < n
  /-- So has a receiver. -/
  received : ∀ n j b, j < n → n ≤ tr.length → (Size.big.exchange L).RequestAt tr j b →
    (stateAt tr k n).sched.stateOf b.owner ≠ some SLEEPING → ∃ i, (i, j) ∈ pairs ∧ max i j < n
  /-- The later call of each pair shares the sender's page with the receiver. -/
  shared : ∀ p ∈ pairs, ∀ a b t, (Size.big.exchange L).OfferAt tr p.1 a →
    (Size.big.exchange L).RequestAt tr p.2 b → tr[max p.1 p.2]? = some t →
    ∃ n, t.1.mem.sharePage n a.addr b.addr = some t.2.2.mem
  /-- All other messages leave the memory alone. -/
  untouched : ∀ n t, tr[n]? = some t → Op.isMessage t.2.1.1 = true →
    (∀ p ∈ pairs, max p.1 p.2 ≠ n) → t.2.2.mem = t.1.mem

/-- **Big messages are delivered exactly once and in order**, each by one call of `share_page`. -/
theorem big_messages_delivered {k₀ : Kernel} (h₀ : Start k₀) (hr : Run (Step L) k₀ tr k) :
    ∃ pairs, BigDelivery L tr k pairs := by
  obtain ⟨pairs, hserved⟩ := run_served .big h₀ hr
  have hat : ∀ {n : Nat} {t : Kernel × (Op × Int) × Kernel}, tr[n]? = some t →
      Ok L t.1 ∧ Step L t.1 t.2.1 t.2.2 := by
    intro n t ht
    obtain ⟨heq, hs⟩ := hr.stateAt_step ht
    exact ⟨heq ▸ run_ok_at h₀ hr (List.getElem?_eq_some_iff.mp ht).1.le, hs⟩
  have hwaits : ∀ {n q x}, n ≤ tr.length → q.isBig = true → x ∈ (stateAt tr k n).requests q →
      (stateAt tr k n).sched.stateOf x.owner = some SLEEPING := by
    intro n q x hn hq hx
    rcases (run_ok_at h₀ hr hn).owner_asleep hx with hs | ⟨-, rfl⟩
    · exact hs
    · cases hq
  refine ⟨pairs, hserved, ?_, ?_, ?_, ?_⟩
  · intro n i a hi hn ha hs
    exact hserved.taken n i a hi hn ha fun hw => hs (hwaits (q := .bigSend) hn rfl hw)
  · intro n j b hj hn hb hs
    exact hserved.answered n j b hj hn hb fun hw => hs (hwaits (q := .bigReceive) hn rfl hw)
  · intro p hp a b t ha hb ht
    obtain ⟨a', b', t', ha', hb', -, ht', ho, -⟩ := hserved.pair p hp
    obtain rfl := Rendezvous.Act.offer.inj (Option.some.inj (ha'.symm.trans ha))
    obtain rfl := Rendezvous.Act.request.inj (Option.some.inj (hb'.symm.trans hb))
    obtain rfl := Option.some.inj (ht'.symm.trans ht)
    obtain ⟨hok, hs⟩ := hat ht
    exact big_out_shares hok hs ho
  · intro n t ht hop hno
    obtain ⟨hok, hs⟩ := hat ht
    refine big_out_none hok hs hop (Option.eq_none_iff_forall_ne_some.mpr fun ab hab => ?_)
    obtain ⟨p, hp, hmax, -⟩ := hserved.completed n t ab.1 ab.2 ht hab
    exact hno p hp hmax

/-- The message of process 1 is served with the receive that waits for it. -/
theorem big_messages_delivered_pair : ∃ m₀ tr k pairs t n,
    boot 20 emptyImage 0x1000000 = some m₀ ∧ Run (Step (stackLayout 0x18000)) (start m₀) tr k ∧
    tr.map (fun t => t.2.1) = [(.clock 3, 0), (.msg 4 1 0x400000, 1), (.msg 3 2 0x400000, 1)] ∧
    tr[2]? = some t ∧
    t.1.mem.sharePage n (msgEntry 1 0x400000) (msgEntry 2 0x400000) = some t.2.2.mem ∧
    (∃ p ∈ pairs, max p.1 p.2 = 2) ∧ BigDelivery (stackLayout 0x18000) tr k pairs := by
  obtain ⟨m₀, tr, k, k', a, b, h₀, hr, hlabels, -, hp, ha, hb⟩ := paired_run
  obtain ⟨pairs, h⟩ := big_messages_delivered (start_start m₀) hr
  have hlen : tr.length = 2 := by simpa using congrArg List.length hlabels
  have hlast : (tr ++ [(k, (Op.msg 3 2 0x400000, 1), k')])[2]?
      = some (k, (.msg 3 2 0x400000, 1), k') := by
    rw [← hlen, List.getElem?_concat_length]
  have hs : Step (stackLayout 0x18000) k (.msg 3 2 0x400000, 1) k' := (hr.stateAt_step hlast).2
  have ho := (big_out_iff (L := stackLayout 0x18000) (step_caller hs)).mpr hp
  obtain ⟨p, hmem, hmax, hpa, hpb⟩ := h.completed 2 _ a b hlast ho
  obtain ⟨n, hn⟩ := h.shared p hmem a b _ hpa hpb (hmax.symm ▸ hlast)
  rw [ha, hb] at hn
  exact ⟨m₀, _, k', pairs, _, n, h₀, hr, hlabels, hlast, hn, ⟨p, hmem, hmax⟩, h⟩

end Mks.Kernel
