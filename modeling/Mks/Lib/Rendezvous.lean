import Mathlib.Data.List.Nodup
import Mathlib.Data.List.Pairwise
import Mathlib.Tactic

set_option autoImplicit false

/-! # Rendezvous in the order of arrival

Offers of type `α` and requests of type `β` arrive one by one. An arrival that `m` lets meet a
waiting one is served at once, with the first it meets, and both are gone; otherwise it waits.

A ledger records the time of every waiting arrival and pairs the times of the served ones.
`Fits.step` keeps it: every arrival is in at most one pair, is in none exactly while it waits,
and an offer is not served before an earlier one that its request would have met.
-/

namespace Mks.Rendezvous

variable {α β γ : Type} {m : α → β → Bool}

inductive Act (α β : Type)
  | offer (a : α)
  | request (b : β)
  | skip

/-- The arrivals that wait, in their order. -/
structure State (α β : Type) where
  offers : List α
  requests : List β

/-- One arrival, and the pair that it completes. -/
inductive Step (m : α → β → Bool) : State α β → Act α β → Option (α × β) → State α β → Prop
  | skip (s : State α β) : Step m s .skip none s
  | deliver {os : List α} {l₁ l₂ : List β} {a : α} {b : β} (h : m a b = true) :
      Step m ⟨os, l₁ ++ b :: l₂⟩ (.offer a) (some (a, b)) ⟨os, l₁ ++ l₂⟩
  | pend {os : List α} {rs : List β} {a : α} (h : ∀ b ∈ rs, m a b = false) :
      Step m ⟨os, rs⟩ (.offer a) none ⟨os ++ [a], rs⟩
  | take {l₁ l₂ : List α} {rs : List β} {a : α} {b : β} (h₁ : ∀ x ∈ l₁, m x b = false)
      (h : m a b = true) :
      Step m ⟨l₁ ++ a :: l₂, rs⟩ (.request b) (some (a, b)) ⟨l₁ ++ l₂, rs⟩
  | wait {os : List α} {rs : List β} {b : β} (h : ∀ a ∈ os, m a b = false) :
      Step m ⟨os, rs⟩ (.request b) none ⟨os, rs ++ [b]⟩

/-! ## Histories -/

theorem getElem?_snoc_left {l : List γ} {i : Nat} {x c : γ} (h : l[i]? = some x) :
    (l ++ [c])[i]? = some x := by
  have hi : i < l.length := by
    by_contra hge
    rw [List.getElem?_eq_none (by omega)] at h
    cases h
  rw [List.getElem?_append_left hi, h]

theorem getElem?_snoc {l : List γ} {i : Nat} {x c : γ} :
    (l ++ [c])[i]? = some x ↔ l[i]? = some x ∨ i = l.length ∧ c = x := by
  rcases Nat.lt_trichotomy i l.length with hlt | heq | hgt
  · rw [List.getElem?_append_left hlt]
    constructor
    · exact .inl
    · rintro (h | ⟨he, -⟩)
      · exact h
      · omega
  · subst heq
    simp
  · rw [List.getElem?_eq_none (by simp; omega), List.getElem?_eq_none (by omega)]
    constructor
    · intro h
      cases h
    · rintro (h | ⟨he, -⟩)
      · cases h
      · omega

theorem lt_of_getElem? {l : List γ} {i : Nat} {x : γ} (h : l[i]? = some x) : i < l.length := by
  by_contra hge
  rw [List.getElem?_eq_none (by omega)] at h
  cases h

/-! ## One side of the ledger -/

variable {hist : List (Act α β)} {c : γ → Act α β} {q : List (Nat × γ)} {matched : List Nat}

/-- The arrivals of one kind: `q` are those that wait, in order and with their times, and
`matched` are the times of those that have been served. -/
structure Side (hist : List (Act α β)) (c : γ → Act α β) (q : List (Nat × γ))
    (matched : List Nat) : Prop where
  waiting : ∀ p ∈ q, hist[p.1]? = some (c p.2)
  sorted : (q.map Prod.fst).Pairwise (· < ·)
  served : ∀ i ∈ matched, ∃ x, hist[i]? = some (c x)
  once : matched.Nodup
  apart : ∀ i ∈ matched, i ∉ q.map Prod.fst
  all : ∀ i x, hist[i]? = some (c x) → i ∈ matched ∨ i ∈ q.map Prod.fst

theorem Side.lt (h : Side hist c q matched) {i : Nat} (hi : i ∈ matched ∨ i ∈ q.map Prod.fst) :
    i < hist.length := by
  rcases hi with hi | hi
  · obtain ⟨x, hx⟩ := h.served i hi
    exact lt_of_getElem? hx
  · obtain ⟨p, hp, rfl⟩ := List.mem_map.mp hi
    exact lt_of_getElem? (h.waiting p hp)

/-- An act of another kind. -/
theorem Side.other (h : Side hist c q matched) {act : Act α β} (hact : ∀ x, c x ≠ act) :
    Side (hist ++ [act]) c q matched where
  waiting p hp := getElem?_snoc_left (h.waiting p hp)
  sorted := h.sorted
  served i hi := by
    obtain ⟨x, hx⟩ := h.served i hi
    exact ⟨x, getElem?_snoc_left hx⟩
  once := h.once
  apart := h.apart
  all i x hi := by
    rcases getElem?_snoc.mp hi with hi | ⟨-, he⟩
    · exact h.all i x hi
    · exact absurd he.symm (hact x)

/-- An arrival that waits. -/
theorem Side.push (h : Side hist c q matched) (x : γ) :
    Side (hist ++ [c x]) c (q ++ [(hist.length, x)]) matched where
  waiting p hp := by
    rcases List.mem_append.mp hp with hp | hp
    · exact getElem?_snoc_left (h.waiting p hp)
    · rw [List.mem_singleton.mp hp]
      exact getElem?_snoc.mpr (.inr ⟨rfl, rfl⟩)
  sorted := by
    rw [List.map_append, List.pairwise_append]
    refine ⟨h.sorted, by simp, fun i hi j hj => ?_⟩
    have hj : j = hist.length := by simpa using hj
    rw [hj]
    exact h.lt (.inr hi)
  served i hi := by
    obtain ⟨y, hy⟩ := h.served i hi
    exact ⟨y, getElem?_snoc_left hy⟩
  once := h.once
  apart i hi hq := by
    have hlt := h.lt (.inl hi)
    rw [List.map_append, List.mem_append] at hq
    rcases hq with hq | hq
    · exact h.apart i hi hq
    · have : i = hist.length := by simpa using hq
      omega
  all i y hi := by
    rw [List.map_append, List.mem_append]
    rcases getElem?_snoc.mp hi with hi | ⟨rfl, -⟩
    · exact (h.all i y hi).imp_right .inl
    · exact .inr (.inr (by simp))

/-- An arrival that is served at once. -/
theorem Side.direct (h : Side hist c q matched) (x : γ) :
    Side (hist ++ [c x]) c q (matched ++ [hist.length]) where
  waiting p hp := getElem?_snoc_left (h.waiting p hp)
  sorted := h.sorted
  served i hi := by
    rcases List.mem_append.mp hi with hi | hi
    · obtain ⟨y, hy⟩ := h.served i hi
      exact ⟨y, getElem?_snoc_left hy⟩
    · exact ⟨x, getElem?_snoc.mpr (.inr ⟨List.mem_singleton.mp hi, rfl⟩)⟩
  once := by
    refine List.nodup_append.mpr ⟨h.once, by simp, fun i hi j hj => ?_⟩
    have hlt := h.lt (.inl hi)
    have hj := List.mem_singleton.mp hj
    omega
  apart i hi hq := by
    rcases List.mem_append.mp hi with hi | hi
    · exact h.apart i hi hq
    · have hlt := h.lt (.inr hq)
      have hi := List.mem_singleton.mp hi
      omega
  all i y hi := by
    rcases getElem?_snoc.mp hi with hi | ⟨rfl, -⟩
    · exact (h.all i y hi).imp_left fun hi => by simp [hi]
    · exact .inl (by simp)

/-- A waiting arrival that an act of another kind serves. -/
theorem Side.remove {q₁ q₂ : List (Nat × γ)} {i : Nat} {x : γ}
    (h : Side hist c (q₁ ++ (i, x) :: q₂) matched) {act : Act α β} (hact : ∀ x, c x ≠ act) :
    Side (hist ++ [act]) c (q₁ ++ q₂) (matched ++ [i]) := by
  have hsub : (q₁ ++ q₂).Sublist (q₁ ++ (i, x) :: q₂) :=
    List.Sublist.append_left (List.sublist_cons_self _ _) _
  have hnd : ((q₁ ++ (i, x) :: q₂).map Prod.fst).Nodup := h.sorted.imp fun hlt => Nat.ne_of_lt hlt
  have hi : i ∉ (q₁ ++ q₂).map Prod.fst := by
    rw [List.map_append, List.map_cons] at hnd
    rw [List.map_append]
    exact (List.nodup_middle.mp hnd).notMem
  have hmid : i ∈ (q₁ ++ (i, x) :: q₂).map Prod.fst := by simp
  have h' := h.other hact
  refine ⟨fun p hp => h'.waiting p (hsub.subset hp), h.sorted.sublist (hsub.map _), ?_, ?_, ?_, ?_⟩
  · intro j hj
    rcases List.mem_append.mp hj with hj | hj
    · exact h'.served j hj
    · rw [List.mem_singleton.mp hj]
      exact ⟨x, h'.waiting (i, x) (by simp)⟩
  · refine List.nodup_append.mpr ⟨h.once, by simp, fun j hj i' hi' => ?_⟩
    rw [List.mem_singleton.mp hi']
    exact fun e => h.apart j hj (e ▸ hmid)
  · intro j hj hq
    rcases List.mem_append.mp hj with hj | hj
    · exact h.apart j hj ((hsub.map _).subset hq)
    · exact hi (List.mem_singleton.mp hj ▸ hq)
  · intro j y hj
    rcases h'.all j y hj with hj | hj
    · exact .inl (by simp [hj])
    · simp only [List.map_append, List.map_cons, List.mem_append, List.mem_cons] at hj ⊢
      tauto

/-! ## The ledger -/

structure Ledger (α β : Type) where
  offers : List (Nat × α)
  requests : List (Nat × β)
  pairs : List (Nat × Nat)

/-- The ledger `l` records the history that led to the state `s`. -/
structure Fits (m : α → β → Bool) (hist : List (Act α β)) (s : State α β) (l : Ledger α β) :
    Prop where
  offers : l.offers.map Prod.snd = s.offers
  requests : l.requests.map Prod.snd = s.requests
  offerSide : Side hist .offer l.offers (l.pairs.map Prod.fst)
  requestSide : Side hist .request l.requests (l.pairs.map Prod.snd)
  /-- What waits does not meet. -/
  quiet : ∀ a ∈ s.offers, ∀ b ∈ s.requests, m a b = false
  meets : ∀ p ∈ l.pairs, ∀ a b, hist[p.1]? = some (.offer a) → hist[p.2]? = some (.request b) →
    m a b = true
  /-- An earlier offer that the request meets was served earlier. -/
  order : ∀ p ∈ l.pairs, ∀ i a b, i < p.1 → hist[i]? = some (.offer a) →
    hist[p.2]? = some (.request b) → m a b = true →
    ∃ j, (i, j) ∈ l.pairs ∧ max i j < max p.1 p.2

theorem Fits.nil : Fits m [] ⟨[], []⟩ ⟨[], [], []⟩ where
  offers := rfl
  requests := rfl
  offerSide := ⟨by simp, by simp, by simp, by simp, by simp, by simp⟩
  requestSide := ⟨by simp, by simp, by simp, by simp, by simp, by simp⟩
  quiet := by simp
  meets := by simp
  order := by simp

variable {s s' : State α β} {l : Ledger α β}

theorem Fits.pair_lt (h : Fits m hist s l) {p : Nat × Nat} (hp : p ∈ l.pairs) :
    p.1 < hist.length ∧ p.2 < hist.length :=
  ⟨h.offerSide.lt (.inl (List.mem_map_of_mem hp)), h.requestSide.lt (.inl (List.mem_map_of_mem hp))⟩

/-- An offer that is neither waiting nor new has been served. -/
theorem Fits.served_offer (h : Fits m hist s l) {i : Nat} {a : α} (hi : hist[i]? = some (.offer a))
    (hno : ∀ x, (i, x) ∉ l.offers) : ∃ j, (i, j) ∈ l.pairs := by
  rcases h.offerSide.all i a hi with hi | hi
  · obtain ⟨⟨i, j⟩, hp, rfl⟩ := List.mem_map.mp hi
    exact ⟨j, hp⟩
  · obtain ⟨⟨i, x⟩, hp, rfl⟩ := List.mem_map.mp hi
    exact absurd hp (hno x)

/-- The ledger after an act that adds the pair `p`, if any, completed now. -/
theorem Fits.extend {hist : List (Act α β)} {act : Act α β} (h : Fits m hist s l)
    {l' : Ledger α β} (new : List (Nat × Nat)) (hpairs : l'.pairs = l.pairs ++ new)
    (ho : l'.offers.map Prod.snd = s'.offers) (hr : l'.requests.map Prod.snd = s'.requests)
    (hos : Side (hist ++ [act]) .offer l'.offers (l'.pairs.map Prod.fst))
    (hrs : Side (hist ++ [act]) .request l'.requests (l'.pairs.map Prod.snd))
    (hq : ∀ a ∈ s'.offers, ∀ b ∈ s'.requests, m a b = false)
    (hnew : ∀ p ∈ new, max p.1 p.2 = hist.length ∧
      (∀ a b, (hist ++ [act])[p.1]? = some (.offer a) → (hist ++ [act])[p.2]? = some (.request b) →
        m a b = true) ∧
      ∀ i a b, i < p.1 → hist[i]? = some (.offer a) →
        (hist ++ [act])[p.2]? = some (.request b) → m a b = true → ∃ j, (i, j) ∈ l.pairs) :
    Fits m (hist ++ [act]) s' l' where
  offers := ho
  requests := hr
  offerSide := hos
  requestSide := hrs
  quiet := hq
  meets p hp a b ha hb := by
    rw [hpairs] at hp
    rcases List.mem_append.mp hp with hp | hp
    · obtain ⟨h1, h2⟩ := h.pair_lt hp
      rw [List.getElem?_append_left h1] at ha
      rw [List.getElem?_append_left h2] at hb
      exact h.meets p hp a b ha hb
    · exact (hnew p hp).2.1 a b ha hb
  order p hp i a b hi ha hb hm := by
    rw [hpairs] at hp ⊢
    rcases List.mem_append.mp hp with hp | hp
    · obtain ⟨h1, h2⟩ := h.pair_lt hp
      rw [List.getElem?_append_left (by omega)] at ha
      rw [List.getElem?_append_left h2] at hb
      obtain ⟨j, hj, hlt⟩ := h.order p hp i a b hi ha hb hm
      exact ⟨j, by simp [hj], hlt⟩
    · obtain ⟨hmax, -, hold⟩ := hnew p hp
      have hlt : i < hist.length := by omega
      rw [List.getElem?_append_left hlt] at ha
      obtain ⟨j, hj⟩ := hold i a b hi ha hb hm
      have := h.pair_lt hj
      exact ⟨j, by simp [hj], by simp only at this; omega⟩

/-- An offer is delivered to a request that has been waiting since time `j`. -/
theorem Fits.deliver {os : List α} {l₁ l₂ : List β} {a : α} {b : β}
    (h : Fits m hist ⟨os, l₁ ++ b :: l₂⟩ l) (hm : m a b = true) :
    ∃ l' j, Fits m (hist ++ [.offer a]) ⟨os, l₁ ++ l₂⟩ l' ∧
      l'.pairs = l.pairs ++ [(hist.length, j)] ∧ hist[j]? = some (.request b) := by
  obtain ⟨r₁, r₂', hr, hr₁, hr₂⟩ := List.map_eq_append_iff.mp h.requests
  obtain ⟨⟨j, y⟩, r₂, rfl, rfl, hrest⟩ := List.map_eq_cons_iff.mp hr₂
  have hj : hist[j]? = some (.request y) := h.requestSide.waiting (j, y) (by rw [hr]; simp)
  have hjlt := lt_of_getElem? hj
  refine ⟨⟨l.offers, r₁ ++ r₂, l.pairs ++ [(hist.length, j)]⟩, j, ?_, rfl, hj⟩
  refine h.extend [(hist.length, j)] rfl h.offers (by simp [hr₁, hrest]) ?_ ?_ ?_ ?_
  · rw [List.map_append]
    exact h.offerSide.direct a
  · rw [List.map_append]
    exact (hr ▸ h.requestSide).remove (by simp)
  · exact fun x hx z hz => h.quiet x hx z (by simp at hz ⊢; tauto)
  · intro p hp
    rw [List.mem_singleton.mp hp]
    refine ⟨by simp only; omega, fun x z hx hz => ?_, fun i x z hi hx hz hmx => ?_⟩
    · rw [List.getElem?_concat_length] at hx
      rw [List.getElem?_append_left hjlt, hj] at hz
      obtain rfl := Act.offer.inj (Option.some.inj hx)
      obtain rfl := Act.request.inj (Option.some.inj hz)
      exact hm
    · rw [List.getElem?_append_left hjlt, hj] at hz
      obtain rfl := Act.request.inj (Option.some.inj hz)
      -- a waiting offer does not meet the waiting request
      refine h.served_offer hx fun x' hx' => ?_
      have hat := h.offerSide.waiting (i, x') hx'
      rw [hx] at hat
      obtain rfl := Act.offer.inj (Option.some.inj hat)
      have hos : x ∈ os := by
        have := List.mem_map_of_mem (f := Prod.snd) hx'
        rwa [h.offers] at this
      have := h.quiet x hos y (by simp)
      rw [hmx] at this
      cases this

/-- A request takes the first offer that it meets, one that has been waiting since time `i`. -/
theorem Fits.take {l₁ l₂ : List α} {rs : List β} {a : α} {b : β}
    (h : Fits m hist ⟨l₁ ++ a :: l₂, rs⟩ l) (hno : ∀ x ∈ l₁, m x b = false) (hm : m a b = true) :
    ∃ l' i, Fits m (hist ++ [.request b]) ⟨l₁ ++ l₂, rs⟩ l' ∧
      l'.pairs = l.pairs ++ [(i, hist.length)] ∧ hist[i]? = some (.offer a) := by
  obtain ⟨o₁, o₂', ho, ho₁, ho₂⟩ := List.map_eq_append_iff.mp h.offers
  obtain ⟨⟨i, x⟩, o₂, rfl, rfl, hrest⟩ := List.map_eq_cons_iff.mp ho₂
  have hi : hist[i]? = some (.offer x) := h.offerSide.waiting (i, x) (by rw [ho]; simp)
  have hilt := lt_of_getElem? hi
  refine ⟨⟨o₁ ++ o₂, l.requests, l.pairs ++ [(i, hist.length)]⟩, i, ?_, rfl, hi⟩
  refine h.extend [(i, hist.length)] rfl (by simp [ho₁, hrest]) h.requests ?_ ?_ ?_ ?_
  · rw [List.map_append]
    exact (ho ▸ h.offerSide).remove (by simp)
  · rw [List.map_append]
    exact h.requestSide.direct b
  · exact fun y hy z hz => h.quiet y (by simp at hy ⊢; tauto) z hz
  · intro p hp
    rw [List.mem_singleton.mp hp]
    refine ⟨by simp only; omega, fun y z hy hz => ?_, fun i' y z hi' hy hz hmy => ?_⟩
    · rw [List.getElem?_append_left hilt, hi] at hy
      rw [List.getElem?_concat_length] at hz
      obtain rfl := Act.offer.inj (Option.some.inj hy)
      obtain rfl := Act.request.inj (Option.some.inj hz)
      exact hm
    · rw [List.getElem?_concat_length] at hz
      obtain rfl := Act.request.inj (Option.some.inj hz)
      -- an earlier waiting offer stands before the one taken
      refine h.served_offer hy fun y' hy' => ?_
      have hat := h.offerSide.waiting (i', y') hy'
      rw [hy] at hat
      obtain rfl := Act.offer.inj (Option.some.inj hat)
      have hsorted := h.offerSide.sorted
      rw [ho] at hy' hsorted
      have hi' : i' < i := hi'
      have hmem : (i', y) ∈ o₁ := by
        rcases List.mem_append.mp hy' with hy' | hy'
        · exact hy'
        · rw [List.map_append, List.pairwise_append, List.map_cons,
            List.pairwise_cons] at hsorted
          rcases List.mem_cons.mp hy' with hy' | hy'
          · have := congrArg Prod.fst hy'
            simp only at this
            omega
          · have := hsorted.2.1.1 i' (List.mem_map_of_mem (f := Prod.fst) hy')
            omega
      have := hno y (ho₁ ▸ List.mem_map_of_mem (f := Prod.snd) hmem)
      rw [hmy] at this
      cases this

/-- **One arrival.** The ledger is extended by at most one pair, which is completed now. -/
theorem Fits.step {act : Act α β} {out : Option (α × β)} (h : Fits m hist s l)
    (hs : Step m s act out s') :
    ∃ l' new, Fits m (hist ++ [act]) s' l' ∧ l'.pairs = l.pairs ++ new ∧
      ∀ p ∈ new, max p.1 p.2 = hist.length ∧ ∃ a b, out = some (a, b) ∧
        (hist ++ [act])[p.1]? = some (.offer a) ∧ (hist ++ [act])[p.2]? = some (.request b) := by
  cases hs with
  | skip =>
      refine ⟨l, [], ?_, by simp, by simp⟩
      exact h.extend [] (by simp) h.offers h.requests (h.offerSide.other (by simp))
        (h.requestSide.other (by simp)) h.quiet (by simp)
  | @pend os rs a hno =>
      refine ⟨⟨l.offers ++ [(hist.length, a)], l.requests, l.pairs⟩, [], ?_, by simp, by simp⟩
      refine h.extend [] (by simp) (by simp [h.offers]) h.requests
        (h.offerSide.push a) (h.requestSide.other (by simp)) ?_
        (by simp)
      intro x hx b hb
      rcases List.mem_append.mp hx with hx | hx
      · exact h.quiet x hx b hb
      · rw [List.mem_singleton.mp hx]
        exact hno b hb
  | @wait os rs b hno =>
      refine ⟨⟨l.offers, l.requests ++ [(hist.length, b)], l.pairs⟩, [], ?_, by simp, by simp⟩
      refine h.extend [] (by simp) h.offers (by simp [h.requests]) (h.offerSide.other (by simp))
        (h.requestSide.push b) ?_ (by simp)
      intro a ha y hy
      rcases List.mem_append.mp hy with hy | hy
      · exact h.quiet a ha y hy
      · rw [List.mem_singleton.mp hy]
        exact hno a ha
  | @deliver os l₁ l₂ a b hm =>
      obtain ⟨l', j, hfits, hpairs, hj⟩ := h.deliver hm
      refine ⟨l', [(hist.length, j)], hfits, hpairs, fun p hp => ?_⟩
      rw [List.mem_singleton.mp hp]
      have hjlt := lt_of_getElem? hj
      exact ⟨by simp only; omega, a, b, rfl, by simp, getElem?_snoc_left hj⟩
  | @take l₁ l₂ rs a b hno hm =>
      obtain ⟨l', i, hfits, hpairs, hi⟩ := h.take hno hm
      refine ⟨l', [(i, hist.length)], hfits, hpairs, fun p hp => ?_⟩
      rw [List.mem_singleton.mp hp]
      have hilt := lt_of_getElem? hi
      exact ⟨by simp only; omega, a, b, rfl, getElem?_snoc_left hi, by simp⟩

end Mks.Rendezvous
