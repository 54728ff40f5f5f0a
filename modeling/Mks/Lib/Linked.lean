import Mathlib.Data.List.Nodup
import Mathlib.Logic.Function.Basic
import Mathlib.Tactic

set_option autoImplicit false

/-! # Intrusive singly linked queues

A family of queues, indexed by `κ`, whose elements `α` carry their own link field: `next` is
shared by all queues, `head` and `tail` are one pointer each per queue. `Links` is that memory,
`Seg` says which list a chain of pointers spells, and `Shape l ql` says that every queue `q` of
`l` is the finite list `ql q`, with the tail pointer on its last element, and that no element is
in two queues.

The operations are the ones C code performs on such queues (scan with a trailing pointer,
unlink, append, pop), each with the lemma that says what it does to the lists.
-/

namespace Mks.Linked

variable {α κ : Type}

/-! ## Chains of pointers -/

/-- The chain that starts at `p` and follows `next` until null spells the list. -/
def Seg (next : α → Option α) : Option α → List α → Prop
  | p, [] => p = none
  | p, a :: l => p = some a ∧ Seg next (next a) l

@[simp] theorem seg_nil (next : α → Option α) (p : Option α) : Seg next p [] ↔ p = none :=
  Iff.rfl

@[simp] theorem seg_cons (next : α → Option α) (p : Option α) (a : α) (l : List α) :
    Seg next p (a :: l) ↔ p = some a ∧ Seg next (next a) l := Iff.rfl

theorem Seg.head_eq {next : α → Option α} {p : Option α} {l : List α} (h : Seg next p l) :
    p = l.head? := by
  cases l with
  | nil => exact h
  | cons a l => exact h.1

theorem Seg.unique {next : α → Option α} :
    ∀ {l l' : List α} {p : Option α}, Seg next p l → Seg next p l' → l = l'
  | [], [], _, _, _ => rfl
  | [], b :: l', _, h, h' => by simp_all
  | a :: l, [], _, h, h' => by simp_all
  | a :: l, b :: l', p, h, h' => by
      have hab : a = b := Option.some.inj (h.1.symm.trans h'.1)
      subst hab
      rw [h.2.unique h'.2]

theorem Seg.congr {next next' : α → Option α} :
    ∀ {l : List α} {p : Option α}, Seg next p l → (∀ a ∈ l, next' a = next a) → Seg next' p l
  | [], _, h, _ => h
  | a :: l, _, h, hn => by
      refine ⟨h.1, ?_⟩
      rw [hn a (by simp)]
      exact h.2.congr fun b hb => hn b (by simp [hb])

theorem Seg.suffix {next : α → Option α} :
    ∀ {l₁ : List α} {a : α} {l₂ : List α} {p : Option α},
      Seg next p (l₁ ++ a :: l₂) → Seg next (next a) l₂
  | [], _, _, _, h => h.2
  | _ :: _, _, _, _, h => h.2.suffix

/-- A finite chain visits no element twice: a repeated element would make it endless. -/
theorem Seg.nodup {next : α → Option α} {l : List α} {p : Option α} (h : Seg next p l) :
    l.Nodup := by
  induction l generalizing p with
  | nil => exact List.nodup_nil
  | cons a l ih =>
      refine List.nodup_cons.mpr ⟨fun ha => ?_, ih h.2⟩
      obtain ⟨l₁, l₂, rfl⟩ := List.append_of_mem ha
      -- `a` is followed both by `l₁ ++ a :: l₂` and by its proper suffix `l₂`
      have hsuf : Seg next (next a) l₂ := h.2.suffix
      have hlen := congrArg List.length (h.2.unique hsuf)
      simp only [List.length_append, List.length_cons] at hlen
      omega

/-- Replacing the rest of a chain: `next'` agrees with `next` up to the last element `t` of
`l₁`, and continues there with `l₂`. -/
theorem Seg.splice {next next' : α → Option α} :
    ∀ {l₁ l₂ l₃ : List α} {t : α} {p : Option α}, Seg next p (l₁ ++ t :: l₃) →
      (∀ a ∈ l₁, next' a = next a) → Seg next' (next' t) l₂ → Seg next' p (l₁ ++ t :: l₂)
  | [], _, _, _, _, h, _, h₂ => ⟨h.1, h₂⟩
  | a :: l₁, _, _, _, _, h, hn, h₂ => by
      refine ⟨h.1, ?_⟩
      rw [hn a (by simp)]
      exact Seg.splice h.2 (fun b hb => hn b (by simp [hb])) h₂

/-! ## The scan loop

`while(p) { if(hit) break; t = p; p = p->next; }`: the result is the trailing pointer and the
element found. The loop runs at most `n` times; a chain longer than that gives no result. -/

/-- The scan with a trailing pointer. -/
def find (next : α → Option α) (hit : α → Bool) :
    Nat → Option α → Option α → Option (Option α × Option α)
  | _, t, none => some (t, none)
  | 0, _, some _ => none
  | n + 1, t, some p => if hit p then some (t, some p) else find next hit n (some p) (next p)

/-- What the scan of a list returns: the element before the first hit, and the first hit. -/
inductive Found (hit : α → Bool) (l : List α) (t : Option α) : Option α × Option α → Prop
  | miss (t' : Option α) (h : ∀ a ∈ l, hit a = false) : Found hit l t (t', none)
  | hit (l₁ : List α) (a : α) (l₂ : List α) (hl : l = l₁ ++ a :: l₂) (ha : hit a = true)
      (h : ∀ b ∈ l₁, hit b = false) : Found hit l t (l₁.getLast?.or t, some a)

theorem find_spec {next : α → Option α} (hit : α → Bool) :
    ∀ {l : List α} {n : Nat} {p : Option α} (t : Option α), Seg next p l → l.length ≤ n →
      ∃ r, find next hit n t p = some r ∧ Found hit l t r
  | [], n, p, t, h, _ => by
      obtain rfl : p = none := h
      exact ⟨(t, none), by cases n <;> rfl, .miss t (by simp)⟩
  | a :: l, 0, p, t, _, hn => by simp at hn
  | a :: l, n + 1, p, t, h, hn => by
      obtain ⟨rfl, h⟩ := h
      by_cases ha : hit a = true
      · exact ⟨(t, some a), by simp [find, ha], .hit [] a l rfl ha (by simp)⟩
      · obtain ⟨r, hr, hf⟩ := find_spec hit (some a) h (by simpa using hn)
        refine ⟨r, by simp [find, ha, hr], ?_⟩
        cases hf with
        | miss t' hm => exact .miss t' (by simpa [ha] using hm)
        | hit l₁ b l₂ hl hb hm =>
            have hlast : (a :: l₁).getLast?.or t = l₁.getLast?.or (some a) := by
              cases l₁ <;> simp [List.getLast?_cons]
            rw [← hlast]
            exact .hit (a :: l₁) b l₂ (by rw [hl]; rfl) hb (by simpa [ha] using hm)

/-- The list a chain spells, followed for at most `n` links. -/
def toList (next : α → Option α) : Nat → Option α → List α
  | _, none => []
  | 0, some _ => []
  | n + 1, some a => a :: toList next n (next a)

theorem toList_eq {next : α → Option α} :
    ∀ {l : List α} {n : Nat} {p : Option α}, Seg next p l → l.length ≤ n → toList next n p = l
  | [], n, p, h, _ => by
      obtain rfl : p = none := h
      cases n <;> rfl
  | a :: l, 0, _, _, hn => by simp at hn
  | a :: l, n + 1, _, h, hn => by
      obtain ⟨rfl, h⟩ := h
      rw [toList, toList_eq h (by simpa using hn)]

/-! ## The memory of a family of queues -/

/-- The link fields and the head and tail pointers. -/
structure Links (α κ : Type) where
  next : α → Option α
  head : κ → Option α
  tail : κ → Option α

/-- The tail pointer of a queue that holds the list `l`, and the chain from its head. -/
structure Queue (next : α → Option α) (head tail : Option α) (l : List α) : Prop where
  seg : Seg next head l
  last : tail = l.getLast?

theorem Queue.nodup {next : α → Option α} {head tail : Option α} {l : List α}
    (h : Queue next head tail l) : l.Nodup := h.seg.nodup

theorem Queue.congr {next next' : α → Option α} {head tail : Option α} {l : List α}
    (h : Queue next head tail l) (hn : ∀ a ∈ l, next' a = next a) :
    Queue next' head tail l := ⟨h.seg.congr hn, h.last⟩

/-- Every queue `q` is the list `ql q`, and the queues are disjoint. -/
structure Shape (l : Links α κ) (ql : κ → List α) : Prop where
  queue : ∀ q, Queue l.next (l.head q) (l.tail q) (ql q)
  disjoint : ∀ q q' a, a ∈ ql q → a ∈ ql q' → q = q'

theorem Shape.head {l : Links α κ} {ql : κ → List α} (h : Shape l ql) (q : κ) :
    l.head q = (ql q).head? := (h.queue q).seg.head_eq

theorem Shape.head_eq_none {l : Links α κ} {ql : κ → List α} (h : Shape l ql) (q : κ) :
    l.head q = none ↔ ql q = [] := by
  rw [h.head]; exact List.head?_eq_none_iff

variable [DecidableEq κ]

/-- One queue changes from `l₀` to `l₁`; the others must not notice. -/
theorem Shape.update {l l' : Links α κ} {ql : κ → List α} (h : Shape l ql) (q : κ) (new : List α)
    (hq : Queue l'.next (l'.head q) (l'.tail q) new)
    (hhead : ∀ q', q' ≠ q → l'.head q' = l.head q')
    (htail : ∀ q', q' ≠ q → l'.tail q' = l.tail q')
    (hnext : ∀ q', q' ≠ q → ∀ a ∈ ql q', l'.next a = l.next a)
    (hnew : ∀ a ∈ new, ∀ q', q' ≠ q → a ∉ ql q') :
    Shape l' (Function.update ql q new) := by
  refine ⟨fun q' => ?_, fun q₁ q₂ a h₁ h₂ => ?_⟩
  · by_cases hq' : q' = q
    · subst hq'; simpa using hq
    · rw [Function.update_of_ne hq', hhead q' hq', htail q' hq']
      exact (h.queue q').congr (hnext q' hq')
  · by_cases e₁ : q₁ = q <;> by_cases e₂ : q₂ = q
    · rw [e₁, e₂]
    · subst e₁
      rw [Function.update_self] at h₁
      rw [Function.update_of_ne e₂] at h₂
      exact absurd h₂ (hnew a h₁ q₂ e₂)
    · subst e₂
      rw [Function.update_self] at h₂
      rw [Function.update_of_ne e₁] at h₁
      exact absurd h₁ (hnew a h₂ q₁ e₁)
    · rw [Function.update_of_ne e₁] at h₁
      rw [Function.update_of_ne e₂] at h₂
      exact h.disjoint q₁ q₂ a h₁ h₂

variable [DecidableEq α]

/-! ## Unlink -/

/-- `if(!t) head = p->next; else t->next = p->next; if(!p->next) tail = t;` -/
def Links.unlink (l : Links α κ) (q : κ) (t : Option α) (p : α) : Links α κ :=
  { next := match t with
      | none => l.next
      | some t => Function.update l.next t (l.next p)
    head := match t with
      | none => Function.update l.head q (l.next p)
      | some _ => l.head
    tail := if l.next p = none then Function.update l.tail q t else l.tail }

theorem Links.unlink_tail_ne (l : Links α κ) {q q' : κ} (t : Option α) (p : α) (h : q' ≠ q) :
    (l.unlink q t p).tail q' = l.tail q' := by
  simp only [Links.unlink]
  split
  · rw [Function.update_of_ne h]
  · rfl

/-- Unlinking an element from its place in a queue removes it from the list. -/
theorem Shape.unlink {l : Links α κ} {ql : κ → List α} (h : Shape l ql) (q : κ)
    {l₁ l₂ : List α} {p : α} (hl : ql q = l₁ ++ p :: l₂) :
    Shape (l.unlink q l₁.getLast? p) (Function.update ql q (l₁ ++ l₂)) := by
  have hQ := h.queue q
  rw [hl] at hQ
  have hnd := hQ.nodup
  have hp : Seg l.next (l.next p) l₂ := hQ.seg.suffix
  have hother : ∀ a ∈ l₁ ++ l₂, ∀ q', q' ≠ q → a ∉ ql q' := fun a ha q' hne ha' =>
    hne (h.disjoint q' q a ha' (by rw [hl]; simp at ha ⊢; tauto))
  have htail : (l.unlink q l₁.getLast? p).tail q = (l₁ ++ l₂).getLast? := by
    simp only [Links.unlink]
    cases l₂ with
    | nil =>
        rw [if_pos (by simpa using hp), Function.update_self, List.append_nil]
    | cons b l₂ =>
        rw [if_neg (by rw [hp.1]; simp), hQ.last]
        simp [List.getLast?_append, List.getLast?_cons]
  rcases List.eq_nil_or_concat l₁ with rfl | ⟨l₀, t, rfl⟩
  · refine h.update q _ ⟨?_, htail⟩ (fun q' hne => ?_) (fun q' hne => l.unlink_tail_ne _ _ hne)
      (fun q' hne a _ => rfl) hother
    · simpa [Links.unlink] using hp
    · simp [Links.unlink, hne]
  · have hlast : (l₀.concat t).getLast? = some t := by simp
    rw [hlast] at htail ⊢
    have ht₂ : t ∉ p :: l₂ := fun ht => by
      rw [List.concat_eq_append, List.append_assoc] at hnd
      exact (List.nodup_cons.mp (List.nodup_append.mp hnd).2.1).1 ht
    have ht₀ : t ∉ l₀ := fun ht => by
      rw [List.concat_eq_append, List.append_assoc] at hnd
      exact (List.nodup_append.mp hnd).2.2 t ht t (by simp) rfl
    refine h.update q _ ⟨?_, htail⟩ (fun q' hne => rfl) (fun q' hne => l.unlink_tail_ne _ _ hne)
      (fun q' hne a ha => ?_) hother
    · have hseg := hQ.seg
      rw [List.concat_eq_append, List.append_assoc, List.singleton_append] at hseg ⊢
      refine hseg.splice (fun a ha => ?_) ?_
      · exact Function.update_of_ne (fun e => ht₀ (by rwa [e] at ha)) _ _
      · simp only [Links.unlink, Function.update_self]
        exact hp.congr fun a ha =>
          Function.update_of_ne (fun e => ht₂ (by rw [e] at ha; simp [ha])) _ _
    · refine Function.update_of_ne (fun e => ?_) _ _
      exact hother t (by simp) q' hne (by rwa [e] at ha)

/-! ## Append -/

/-- `p->next = NULL; if(!head) head = tail = p; else { tail->next = p; tail = p; }`. A null tail
of a queue that is not empty would be a null dereference. -/
def Links.append (l : Links α κ) (q : κ) (p : α) : Option (Links α κ) :=
  let next := Function.update l.next p none
  match l.head q, l.tail q with
  | none, _ => some ⟨next, Function.update l.head q (some p), Function.update l.tail q (some p)⟩
  | some _, some t =>
      some ⟨Function.update next t (some p), l.head, Function.update l.tail q (some p)⟩
  | some _, none => none

omit [DecidableEq α] in
/-- The link fields after appending `p`: the new last element, linked from the old one. -/
theorem Shape.append_of {l l' : Links α κ} {ql : κ → List α} (h : Shape l ql) (q : κ) {p : α}
    (hp : ∀ q', p ∉ ql q')
    (hhead : ∀ q', q' ≠ q → l'.head q' = l.head q')
    (htail : ∀ q', q' ≠ q → l'.tail q' = l.tail q')
    (hfirst : l'.head q = if ql q = [] then some p else l.head q)
    (hlast : l'.tail q = some p)
    (hend : l'.next p = none)
    (hlink : ∀ t, (ql q).getLast? = some t → l'.next t = some p)
    (hnext : ∀ a, a ≠ p → (ql q).getLast? ≠ some a → l'.next a = l.next a) :
    Shape l' (Function.update ql q (ql q ++ [p])) := by
  have hQ := h.queue q
  refine h.update q _ ⟨?_, by simp [hlast]⟩ hhead htail (fun q' hne a ha => ?_) ?_
  · rcases List.eq_nil_or_concat (ql q) with hnil | ⟨l₀, t, hl⟩
    · rw [hfirst, if_pos hnil, hnil]
      simpa using hend
    · have hne : ql q ≠ [] := by rw [hl]; simp
      have hlast' : (ql q).getLast? = some t := by rw [hl]; simp
      rw [hfirst, if_neg hne]
      have hseg := hQ.seg
      have hnd := hQ.nodup
      rw [hl, List.concat_eq_append] at hseg hnd ⊢
      rw [List.append_assoc, List.singleton_append]
      refine hseg.splice (fun a ha => hnext a ?_ ?_) ?_
      · exact fun e => hp q (by rw [hl]; simp; exact .inl (by rwa [e] at ha))
      · rw [hlast']
        intro e
        obtain rfl := Option.some.inj e
        exact (List.nodup_append.mp hnd).2.2 t ha t (by simp) rfl
      · rw [hlink t hlast']
        exact ⟨rfl, hend⟩
  · refine hnext a (fun e => hp q' (by rwa [e] at ha)) fun e => hne ?_
    exact h.disjoint q' q a ha (List.mem_of_getLast? e)
  · intro a ha q' hne ha'
    rcases List.mem_append.mp ha with ha | ha
    · exact hne (h.disjoint q' q a ha' ha)
    · exact hp q' (by rwa [List.mem_singleton.mp ha] at ha')

theorem Shape.append {l : Links α κ} {ql : κ → List α} (h : Shape l ql) (q : κ) {p : α}
    (hp : ∀ q', p ∉ ql q') :
    ∃ l', l.append q p = some l' ∧ Shape l' (Function.update ql q (ql q ++ [p])) := by
  have hhead := h.head q
  have htail := (h.queue q).last
  rcases List.eq_nil_or_concat (ql q) with hnil | ⟨l₀, t, hl⟩
  · rw [hnil] at hhead
    refine ⟨_, by rw [Links.append, hhead]; rfl, h.append_of q hp ?_ ?_ ?_ ?_ ?_ ?_ ?_⟩
    · exact fun q' hne => Function.update_of_ne hne _ _
    · exact fun q' hne => Function.update_of_ne hne _ _
    · simp [hnil]
    · simp
    · simp
    · simp [hnil]
    · exact fun a hne _ => Function.update_of_ne hne _ _
  · have hlast : (ql q).getLast? = some t := by rw [hl]; simp
    have hpt : p ≠ t := fun e => hp q (by rw [hl]; simp [e])
    obtain ⟨a, ha⟩ : ∃ a, (ql q).head? = some a := by
      rw [hl]; cases l₀ <;> simp
    rw [ha] at hhead
    rw [hlast] at htail
    refine ⟨_, by rw [Links.append, hhead, htail], h.append_of q hp ?_ ?_ ?_ ?_ ?_ ?_ ?_⟩
    · exact fun q' hne => rfl
    · exact fun q' hne => Function.update_of_ne hne _ _
    · rw [if_neg (by rw [hl]; simp)]
    · simp
    · simp [hpt]
    · intro t' ht'
      rw [hlast] at ht'
      obtain rfl := Option.some.inj ht'
      simp
    · intro a hne hna
      have hat : a ≠ t := fun e => hna (by rw [hlast, e])
      simp [hat, hne]

/-! ## Pop -/

/-- `head = head->next; if(!head) tail = NULL;` on a queue with first element `p`. -/
def Links.pop (l : Links α κ) (q : κ) (p : α) : Links α κ :=
  { l with
    head := Function.update l.head q (l.next p)
    tail := if l.next p = none then Function.update l.tail q none else l.tail }

theorem Shape.pop {l : Links α κ} {ql : κ → List α} (h : Shape l ql) (q : κ) {p : α}
    {rest : List α} (hl : ql q = p :: rest) :
    Shape (l.pop q p) (Function.update ql q rest) := by
  have := h.unlink q (show ql q = [] ++ p :: rest by simpa using hl)
  simpa [Links.unlink, Links.pop] using this

omit [DecidableEq κ] in
/-- The link field of an element that is in no queue is irrelevant. -/
theorem Shape.set_next {l : Links α κ} {ql : κ → List α} (h : Shape l ql) {p : α}
    (hp : ∀ q, p ∉ ql q) (v : Option α) :
    Shape { l with next := Function.update l.next p v } ql :=
  ⟨fun q => (h.queue q).congr fun _ ha =>
    Function.update_of_ne (fun e => hp q (by rwa [e] at ha)) _ _, h.disjoint⟩

end Mks.Linked
