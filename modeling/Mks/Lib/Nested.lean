import Mks.Lib.Run
import Mathlib.Data.Finset.Max
import Mathlib.Data.Finset.Insert
import Mathlib.Logic.Function.Basic
import Mathlib.Tactic

set_option autoImplicit false

/-! # Nested handlers

Interrupts arrive on lines with priorities, the smallest line first. A controller keeps the lines in
service, delivers a line only if no other of that priority or a higher one is in service, and takes
the one of highest priority out of service at each end-of-interrupt (`eoi`), whoever executes it.
Handlers nest on the stack of the task they interrupt, and may switch to another task, with a stack
of its own. A handler that has been entered with interrupts off may turn them on (`sti`).

If every handler ends its interrupt once, switches only after that, and does not switch when it has
interrupted another handler (`Proper`), then in every run each end-of-interrupt is for the line of
its own handler (`Ordered.own_eoi`), and a task is switched away only when its handler is alone on
the stack and no line is in service (`Ordered.switch_alone`).
-/

namespace Mks.Nested

/-- What a handler does, as far as the controller and the tasks are concerned. -/
inductive Action
  | work | sti | eoi | schedule
deriving DecidableEq

/-- A handler that has begun: its line, none for a trap; whether interrupts are off in it; and what
it has still to do. -/
structure Frame (ι : Type) where
  line : Option ι
  masked : Bool
  todo : List Action
deriving DecidableEq

structure State (τ ι : Type) where
  current : τ
  stack : τ → List (Frame ι)
  inService : Finset ι

/-- The handlers of a system. `user` is whether they have interrupted no other handler. -/
structure Handlers (ι : Type) where
  /-- The lines on which interrupts arrive. -/
  raised : ι → Prop
  interrupt : ι → Bool → List Action
  trap : Bool → Bool → List Action → Prop

variable {τ ι : Type}

/-- The controller's end of an interrupt. -/
def endInterrupt [LinearOrder ι] (s : Finset ι) : Finset ι :=
  if h : s.Nonempty then s.erase (s.min' h) else s

inductive Event (ι : Type)
  | interrupt (l : ι) | trap | act (a : Action) | ret

namespace State

variable [DecidableEq τ] (s : State τ ι)

/-- The stack of the current task. -/
def top : List (Frame ι) := s.stack s.current

/-- Interrupts are off. -/
def off : Bool := s.top.head?.any Frame.masked

/-- The stack of the current task becomes `fs`, and the lines in service `S`. -/
def put (fs : List (Frame ι)) (S : Finset ι) : State τ ι :=
  ⟨s.current, Function.update s.stack s.current fs, S⟩

@[simp] theorem put_top (fs : List (Frame ι)) (S : Finset ι) : (s.put fs S).top = fs :=
  Function.update_self ..

theorem put_stack (fs : List (Frame ι)) (S : Finset ι) (q : τ) :
    (s.put fs S).stack q = if q = s.current then fs else s.stack q := Function.update_apply ..

end State

section
variable [DecidableEq τ] [LinearOrder ι]

/-- One step. Switching is to any task, also to the same one. -/
inductive Step (H : Handlers ι) (s : State τ ι) : Event ι → State τ ι → Prop
  | interrupt {l : ι} (hl : H.raised l) (hon : s.off = false)
      (hprio : ∀ j ∈ s.inService, l < j) :
      Step H s (.interrupt l)
        (s.put (⟨some l, false, H.interrupt l s.top.isEmpty⟩ :: s.top) (insert l s.inService))
  | trap {masked : Bool} {todo : List Action} (h : H.trap masked s.top.isEmpty todo) :
      Step H s .trap (s.put (⟨none, masked || s.off, todo⟩ :: s.top) s.inService)
  | work {f : Frame ι} {fs : List (Frame ι)} {todo : List Action}
      (htop : s.top = { f with todo := .work :: todo } :: fs) :
      Step H s (.act .work) (s.put ({ f with todo := todo } :: fs) s.inService)
  | sti {f : Frame ι} {fs : List (Frame ι)} {todo : List Action}
      (htop : s.top = { f with todo := .sti :: todo } :: fs) :
      Step H s (.act .sti) (s.put ({ f with masked := false, todo := todo } :: fs) s.inService)
  | eoi {f : Frame ι} {fs : List (Frame ι)} {todo : List Action}
      (htop : s.top = { f with todo := .eoi :: todo } :: fs) :
      Step H s (.act .eoi) (s.put ({ f with todo := todo } :: fs) (endInterrupt s.inService))
  | schedule {f : Frame ι} {fs : List (Frame ι)} {todo : List Action} (q : τ)
      (htop : s.top = { f with todo := .schedule :: todo } :: fs) :
      Step H s (.act .schedule)
        { s.put ({ f with todo := todo } :: fs) s.inService with current := q }
  | ret {f : Frame ι} {fs : List (Frame ι)} (htop : s.top = { f with todo := [] } :: fs) :
      Step H s .ret (s.put fs s.inService)

end

/-! ## Proper handlers -/

/-- The interrupt is ended at most once, and not after a switch. -/
def Orderly : List Action → Prop
  | [] => True
  | .work :: r | .sti :: r => Orderly r
  | .eoi :: r | .schedule :: r => .eoi ∉ r ∧ Orderly r

instance : DecidablePred Orderly := fun r => by
  induction r with
  | nil => exact .isTrue trivial
  | cons a r ih => cases a <;> (unfold Orderly; infer_instance)

structure Proper (H : Handlers ι) : Prop where
  ends : ∀ l u, H.raised l → .eoi ∈ H.interrupt l u
  orderly : ∀ l u, H.raised l → Orderly (H.interrupt l u)
  stays : ∀ l, H.raised l → .schedule ∉ H.interrupt l false
  trapEnds : ∀ m u r, H.trap m u r → .eoi ∉ r
  trapStays : ∀ m r, H.trap m false r → .schedule ∉ r

theorem orderly_of_not_mem {r : List Action} (h : .eoi ∉ r) : Orderly r := by
  induction r with
  | nil => trivial
  | cons a r ih =>
      have hr : .eoi ∉ r := fun hm => h (List.mem_cons_of_mem _ hm)
      cases a with
      | work | sti => exact ih hr
      | eoi => exact absurd List.mem_cons_self h
      | schedule => exact ⟨hr, ih hr⟩

theorem Orderly.tail {a : Action} {r : List Action} (h : Orderly (a :: r)) : Orderly r := by
  cases a with
  | work | sti => exact h
  | eoi => exact h.2
  | schedule => exact h.2

/-! ## The lines that are still to be ended -/

/-- The line of a handler that has not ended its interrupt. -/
def Frame.pending (f : Frame ι) : Option ι := if .eoi ∈ f.todo then f.line else none

def pendings (fs : List (Frame ι)) : List ι := fs.filterMap Frame.pending

theorem pendings_cons (f : Frame ι) (fs : List (Frame ι)) :
    pendings (f :: fs) = f.pending.toList ++ pendings fs := by
  unfold pendings
  cases h : f.pending <;> simp [h]

/-- Other actions leave what is to be ended alone. -/
theorem pendings_advance {s : State τ ι} {f : Frame ι} {fs : List (Frame ι)} {a : Action}
    {todo : List Action} (htop : s.top = { f with todo := a :: todo } :: fs) (ha : a ≠ .eoi)
    (m : Bool) : pendings (⟨f.line, m, todo⟩ :: fs) = pendings s.top := by
  rw [htop, pendings_cons, pendings_cons]
  simp [Frame.pending, ha.symm]

/-- Only the handler at the bottom may still switch. -/
def Alone : List (Frame ι) → Prop
  | [] => True
  | f :: fs => (.schedule ∈ f.todo → fs = []) ∧ Alone fs

/-- The invariant of all runs. The lines in service are those that the handlers of the current task
have still to end, those of higher priority on top. -/
structure Ordered [LinearOrder ι] (s : State τ ι) : Prop where
  service : s.inService = (pendings s.top).toFinset
  sorted : (pendings s.top).Pairwise (· < ·)
  others : ∀ q ≠ s.current, pendings (s.stack q) = [] ∧ (s.stack q).length ≤ 1
  orderly : ∀ q, ∀ f ∈ s.stack q, Orderly f.todo
  traps : ∀ q, ∀ f ∈ s.stack q, f.line = none → .eoi ∉ f.todo
  alone : ∀ q, Alone (s.stack q)

namespace Ordered

variable [LinearOrder ι] {H : Handlers ι} {s : State τ ι} {f : Frame ι} {fs : List (Frame ι)}
  {todo : List Action}

theorem start (q : τ) : Ordered (⟨q, fun _ => [], ∅⟩ : State τ ι) where
  service := rfl
  sorted := .nil
  others _ _ := ⟨rfl, Nat.zero_le 1⟩
  orderly _ _ h := nomatch h
  traps _ _ h := nomatch h
  alone _ := trivial

/-! ### The top of the stack -/

/-- The top frame. -/
theorem head (h : Ordered s) (htop : s.top = f :: fs) :
    Orderly f.todo ∧ (f.line = none → .eoi ∉ f.todo) ∧ (.schedule ∈ f.todo → fs = []) ∧
      (∀ f ∈ fs, Orderly f.todo) ∧ (∀ f ∈ fs, f.line = none → .eoi ∉ f.todo) ∧ Alone fs := by
  have horderly := h.orderly s.current
  have htraps := h.traps s.current
  have halone := h.alone s.current
  rw [show s.stack s.current = f :: fs from htop] at horderly htraps halone
  obtain ⟨ho, hos⟩ := List.forall_mem_cons.mp horderly
  obtain ⟨ht, hts⟩ := List.forall_mem_cons.mp htraps
  exact ⟨ho, ht, halone.1, hos, hts, halone.2⟩

/-- What is to be ended when the top frame is about to. -/
theorem eoi_pendings (h : Ordered s) (htop : s.top = { f with todo := .eoi :: todo } :: fs) :
    ∃ l, f.line = some l ∧ pendings s.top = l :: pendings fs ∧
      pendings ({ f with todo := todo } :: fs) = pendings fs := by
  obtain ⟨ho, ht, -⟩ := h.head htop
  cases hl : f.line with
  | none => exact absurd List.mem_cons_self (ht hl)
  | some l =>
      have hnot : .eoi ∉ todo := ho.1
      refine ⟨l, rfl, ?_, ?_⟩
      · rw [htop, pendings_cons]
        simp [Frame.pending, hl]
      · rw [pendings_cons]
        simp [Frame.pending, hnot]

/-- **Every end-of-interrupt is for the line of its own handler.** -/
theorem own_eoi (h : Ordered s) (htop : s.top = { f with todo := .eoi :: todo } :: fs) :
    ∃ l, f.line = some l ∧ l ∈ s.inService ∧ endInterrupt s.inService = s.inService.erase l ∧
      endInterrupt s.inService = (pendings fs).toFinset := by
  obtain ⟨l, hl, hp, -⟩ := h.eoi_pendings htop
  have hsort := h.sorted
  rw [hp, List.pairwise_cons] at hsort
  have hserv := h.service
  rw [hp, List.toFinset_cons] at hserv
  have hmem : l ∈ s.inService := hserv ▸ Finset.mem_insert_self l _
  have hmin : s.inService.min' ⟨l, hmem⟩ = l := by
    refine le_antisymm (Finset.min'_le _ _ hmem) (Finset.le_min' _ _ _ fun j hj => ?_)
    rw [hserv, Finset.mem_insert] at hj
    rcases hj with rfl | hj
    · exact le_rfl
    · exact (hsort.1 j (List.mem_toFinset.mp hj)).le
  have hend : endInterrupt s.inService = s.inService.erase l := by
    rw [endInterrupt, dif_pos ⟨l, hmem⟩, hmin]
  refine ⟨l, hl, hmem, hend, ?_⟩
  rw [hend, hserv]
  exact Finset.erase_insert fun hm => lt_irrefl l (hsort.1 l (List.mem_toFinset.mp hm))

/-- **A task is switched away only when its handler is alone** and nothing is in service. -/
theorem switch_alone (h : Ordered s) (htop : s.top = { f with todo := .schedule :: todo } :: fs) :
    fs = [] ∧ s.inService = ∅ ∧ pendings ({ f with todo := todo } :: fs) = [] := by
  obtain ⟨ho, -, ha, -⟩ := h.head htop
  have hnot : .eoi ∉ todo := ho.1
  obtain rfl := ha List.mem_cons_self
  refine ⟨rfl, ?_, ?_⟩
  · rw [h.service, htop, pendings_cons]
    simp [Frame.pending, hnot, pendings]
  · rw [pendings_cons]
    simp [Frame.pending, hnot, pendings]

/-! ### Steps -/

variable [DecidableEq τ]

/-- A change of the top. -/
theorem put (h : Ordered s) {S : Finset ι} (hS : S = (pendings fs).toFinset)
    (hsorted : (pendings fs).Pairwise (· < ·)) (horderly : ∀ f ∈ fs, Orderly f.todo)
    (htraps : ∀ f ∈ fs, f.line = none → .eoi ∉ f.todo) (halone : Alone fs) :
    Ordered (s.put fs S) where
  service := by rw [State.put_top]; exact hS
  sorted := by rwa [State.put_top]
  others q hq := by
    rw [State.put_stack, if_neg (show q ≠ s.current from hq)]
    exact h.others q hq
  orderly q := by
    rw [State.put_stack]
    split_ifs
    · exact horderly
    · exact h.orderly q
  traps q := by
    rw [State.put_stack]
    split_ifs
    · exact htraps
    · exact h.traps q
  alone q := by
    rw [State.put_stack]
    split_ifs
    · exact halone
    · exact h.alone q

/-- The top frame goes on with `todo`. -/
theorem advance (h : Ordered s) {a : Action} {m : Bool}
    (htop : s.top = { f with todo := a :: todo } :: fs)
    {S : Finset ι} (hS : S = (pendings (⟨f.line, m, todo⟩ :: fs)).toFinset)
    (hsorted : (pendings (⟨f.line, m, todo⟩ :: fs)).Pairwise (· < ·)) :
    Ordered (s.put (⟨f.line, m, todo⟩ :: fs) S) := by
  obtain ⟨ho, ht, ha, hos, hts, has⟩ := h.head htop
  refine h.put hS hsorted (List.forall_mem_cons.mpr ⟨ho.tail, hos⟩)
    (List.forall_mem_cons.mpr ⟨fun hl hm => ?_, hts⟩) ⟨fun hm => ?_, has⟩
  · exact ht hl (List.mem_cons_of_mem _ hm)
  · exact ha (List.mem_cons_of_mem _ hm)

/-- A new frame on top. -/
theorem push (h : Ordered s) (horderly : Orderly f.todo) (htrap : f.line = none → .eoi ∉ f.todo)
    (halone : .schedule ∈ f.todo → s.top = []) {S : Finset ι}
    (hS : S = (pendings (f :: s.top)).toFinset)
    (hsorted : (pendings (f :: s.top)).Pairwise (· < ·)) : Ordered (s.put (f :: s.top) S) :=
  h.put hS hsorted (List.forall_mem_cons.mpr ⟨horderly, h.orderly s.current⟩)
    (List.forall_mem_cons.mpr ⟨htrap, h.traps s.current⟩) ⟨halone, h.alone s.current⟩

/-- **Every step keeps the order.** -/
theorem step (hH : Proper H) (h : Ordered s) {e : Event ι} {s' : State τ ι} (hs : Step H s e s') :
    Ordered s' := by
  cases hs with
  | @interrupt l hl hon hprio =>
      have hp : pendings (⟨some l, false, H.interrupt l s.top.isEmpty⟩ :: s.top)
          = l :: pendings s.top := by
        rw [pendings_cons]
        simp [Frame.pending, hH.ends l _ hl]
      refine h.push (hH.orderly l _ hl) (fun hn => by simp at hn) (fun hm => ?_) ?_ ?_
      · by_contra hne
        rw [List.isEmpty_eq_false_iff.mpr hne] at hm
        exact hH.stays l hl hm
      · rw [hp, List.toFinset_cons, ← h.service]
      · rw [hp, List.pairwise_cons]
        refine ⟨fun j hj => hprio j ?_, h.sorted⟩
        rw [h.service]
        exact List.mem_toFinset.mpr hj
  | @trap masked todo ht =>
      have hnot := hH.trapEnds _ _ _ ht
      have hp : pendings (⟨none, masked || s.off, todo⟩ :: s.top) = pendings s.top := by
        rw [pendings_cons]
        simp [Frame.pending]
      refine h.push (orderly_of_not_mem hnot) (fun _ => hnot) (fun hm => ?_) ?_ ?_
      · by_contra hne
        rw [List.isEmpty_eq_false_iff.mpr hne] at ht
        exact hH.trapStays _ _ ht hm
      · rw [hp]
        exact h.service
      · rw [hp]
        exact h.sorted
  | @work f fs todo htop =>
      have hp := pendings_advance htop (by decide) f.masked
      exact h.advance htop (hp ▸ h.service) (hp ▸ h.sorted)
  | @sti f fs todo htop =>
      have hp := pendings_advance htop (by decide) false
      exact h.advance htop (hp ▸ h.service) (hp ▸ h.sorted)
  | @eoi f fs todo htop =>
      obtain ⟨l, -, hp, hq⟩ := h.eoi_pendings htop
      obtain ⟨-, -, -, -, hend⟩ := h.own_eoi htop
      have hsort := h.sorted
      rw [hp] at hsort
      exact h.advance htop (hq ▸ hend) (hq ▸ hsort.of_cons)
  | @schedule f fs todo q htop =>
      obtain ⟨rfl, hempty, hp⟩ := h.switch_alone htop
      have hadv : Ordered (s.put [{ f with todo := todo }] s.inService) :=
        h.advance htop (by rw [hempty, hp]; rfl) (by rw [hp]; exact .nil)
      -- no task has a line to be ended
      have hnone : ∀ q, pendings ((s.put [{ f with todo := todo }] s.inService).stack q) = [] ∧
          ((s.put [{ f with todo := todo }] s.inService).stack q).length ≤ 1 := by
        intro q
        rw [State.put_stack]
        split_ifs with hq
        · exact ⟨hp, le_rfl⟩
        · exact h.others q hq
      refine ⟨?_, ?_, fun q' _ => hnone q', hadv.orderly, hadv.traps, hadv.alone⟩
      · show s.inService = (pendings ((s.put [_] s.inService).stack q)).toFinset
        rw [(hnone q).1]
        exact hempty
      · show (pendings ((s.put [_] s.inService).stack q)).Pairwise (· < ·)
        rw [(hnone q).1]
        exact .nil
  | @ret f fs htop =>
      obtain ⟨-, -, -, hos, hts, has⟩ := h.head htop
      have hp : pendings fs = pendings s.top := by
        rw [htop, pendings_cons]
        simp [Frame.pending]
      exact h.put (hp ▸ h.service) (hp ▸ h.sorted) hos hts has

/-- **Runs.** -/
theorem reach (hH : Proper H) {q : τ} (hr : Reach (Step H) ⟨q, fun _ => [], ∅⟩ s) : Ordered s :=
  hr.invariant (start q) fun h hs => h.step hH hs

end Ordered

end Mks.Nested
