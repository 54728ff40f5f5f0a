import Mathlib.Data.List.Basic
import Mathlib.Tactic

set_option autoImplicit false

/-! # Runs of a transition system

`step s e s'` is one step from `s` to `s'` with label `e`. A run from `s₀` is the list of its
transitions `(s, e, s')`, oldest first, and the state it ends in.
-/

namespace Mks

variable {σ ε : Type}

/-- The runs of `step` from `s₀`. -/
inductive Run (step : σ → ε → σ → Prop) (s₀ : σ) : List (σ × ε × σ) → σ → Prop
  | nil : Run step s₀ [] s₀
  | snoc {tr : List (σ × ε × σ)} {s s' : σ} {e : ε} :
      Run step s₀ tr s → step s e s' → Run step s₀ (tr ++ [(s, e, s')]) s'

/-- A state that some run from `s₀` ends in. -/
def Reach (step : σ → ε → σ → Prop) (s₀ s : σ) : Prop := ∃ tr, Run step s₀ tr s

variable {step : σ → ε → σ → Prop} {s₀ s : σ} {tr : List (σ × ε × σ)}

theorem Reach.refl : Reach step s₀ s₀ := ⟨[], .nil⟩

theorem Reach.snoc {e : ε} {s' : σ} (h : Reach step s₀ s) (hs : step s e s') :
    Reach step s₀ s' := by
  obtain ⟨tr, hr⟩ := h
  exact ⟨_, hr.snoc hs⟩

/-- **Invariants.** What holds of the first state, and is kept by every step that satisfies
`C`, holds at the end of every run all of whose transitions satisfy `C`. -/
theorem Run.invariant_of {I : σ → Prop} {C : σ → ε → σ → Prop} (hr : Run step s₀ tr s)
    (hC : ∀ t ∈ tr, C t.1 t.2.1 t.2.2) (h₀ : I s₀)
    (hstep : ∀ {s e s'}, I s → step s e s' → C s e s' → I s') : I s := by
  induction hr with
  | nil => exact h₀
  | snoc hr hs ih =>
      exact hstep (ih fun t ht => hC t (by simp [ht])) hs (hC (_, _, _) (by simp))

theorem Run.invariant {I : σ → Prop} (hr : Run step s₀ tr s) (h₀ : I s₀)
    (hstep : ∀ {s e s'}, I s → step s e s' → I s') : I s :=
  hr.invariant_of (C := fun _ _ _ => True) (fun _ _ => trivial) h₀ fun h hs _ => hstep h hs

theorem Reach.invariant {I : σ → Prop} (h : Reach step s₀ s) (h₀ : I s₀)
    (hstep : ∀ {s e s'}, I s → step s e s' → I s') : I s := by
  obtain ⟨tr, hr⟩ := h
  exact hr.invariant h₀ hstep

/-- **Accounts.** What every step changes by `d`, a run changes by the sum. -/
theorem Run.account {M : Type} [AddCommMonoid M] {I : σ → Prop} {f : σ → M} {d : σ × ε × σ → M}
    (hr : Run step s₀ tr s) (h₀ : I s₀)
    (hstep : ∀ {s e s'}, I s → step s e s' → I s' ∧ f s' = f s + d (s, e, s')) :
    f s = f s₀ + (tr.map d).sum := by
  induction hr with
  | nil => simp
  | snoc hr hs ih =>
      have hI := hr.invariant h₀ fun h hs => (hstep h hs).1
      rw [(hstep hI hs).2, ih, List.map_append, List.sum_append, List.map_singleton,
        List.sum_singleton, add_assoc]

/-- Two runs, one after the other. -/
theorem Run.append {tr' : List (σ × ε × σ)} {s' : σ} (h : Run step s₀ tr s)
    (h' : Run step s tr' s') : Run step s₀ (tr ++ tr') s' := by
  induction h' with
  | nil => simpa using h
  | snoc _ hs ih => rw [← List.append_assoc]; exact ih.snoc hs

/-- The run up to one of its transitions, and that transition. -/
theorem Run.split {tr₁ tr₂ : List (σ × ε × σ)} {t : σ × ε × σ}
    (h : Run step s₀ (tr₁ ++ t :: tr₂) s) : Run step s₀ tr₁ t.1 ∧ step t.1 t.2.1 t.2.2 := by
  generalize htr : tr₁ ++ t :: tr₂ = tr at h
  induction h generalizing tr₂ with
  | nil => simp at htr
  | snoc hr hs ih =>
      rcases List.eq_nil_or_concat tr₂ with rfl | ⟨tr₃, t', rfl⟩
      · obtain ⟨rfl, ht⟩ := List.append_inj' htr rfl
        obtain rfl := List.singleton_inj.mp ht
        exact ⟨hr, hs⟩
      · rw [List.concat_eq_append, ← List.cons_append, ← List.append_assoc] at htr
        exact ih (List.append_inj' htr rfl).1

/-- The state before transition `n`, or the last one. -/
def stateAt (tr : List (σ × ε × σ)) (s : σ) (n : Nat) : σ := (tr[n]?.map Prod.fst).getD s

theorem stateAt_snoc {n : Nat} (hn : n ≤ tr.length) (e : ε) (s' : σ) :
    stateAt (tr ++ [(s, e, s')]) s' n = stateAt tr s n := by
  unfold stateAt
  rcases Nat.lt_or_ge n tr.length with hlt | hge
  · rw [List.getElem?_append_left hlt, List.getElem?_eq_getElem hlt]
    rfl
  · obtain rfl : n = tr.length := by omega
    rw [List.getElem?_concat_length, List.getElem?_eq_none (by omega)]
    rfl

theorem stateAt_last {n : Nat} (hn : tr.length ≤ n) : stateAt tr s n = s := by
  rw [stateAt, List.getElem?_eq_none hn]
  rfl

theorem Run.stateAt_invariant {I : σ → Prop} (hr : Run step s₀ tr s) (h₀ : I s₀)
    (hstep : ∀ {s e s'}, I s → step s e s' → I s') {n : Nat} (hn : n ≤ tr.length) :
    I (stateAt tr s n) := by
  induction hr generalizing n with
  | nil => exact h₀
  | @snoc tr s s' e hr hs ih =>
      rcases Nat.lt_or_ge tr.length n with hlt | hge
      · rw [stateAt_last (by simp; omega)]
        exact hstep (hr.invariant h₀ hstep) hs
      · rw [stateAt_snoc hge]
        exact ih hge

/-- A transition of a run is a step from the state before it. -/
theorem Run.stateAt_step (hr : Run step s₀ tr s) {n : Nat} {t : σ × ε × σ}
    (ht : tr[n]? = some t) : t.1 = stateAt tr s n ∧ step t.1 t.2.1 t.2.2 := by
  obtain ⟨hn, hget⟩ := List.getElem?_eq_some_iff.mp ht
  refine ⟨by rw [stateAt, ht]; rfl, ?_⟩
  have hsplit := List.take_append_drop n tr
  rw [List.drop_eq_getElem_cons hn, hget] at hsplit
  rw [← hsplit] at hr
  exact hr.split.2

end Mks
