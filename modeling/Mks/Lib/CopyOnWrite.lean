import Mks.Lib.RefCount

set_option autoImplicit false

/-! # Copy on write

Pages (`ι`) map frames (`κ`). Several pages may map one frame, which then none of them may write;
a frame may also be in use by its owner otherwise, `base` counts these uses. Each frame has a
counter.

The moves below are the ways in which such a space changes. `Safe.apply`: the counters never fall
below the number of uses, and a writable page has its frame alone. `contents_apply`: the contents
of the pages are then those of pages that share nothing. `slack_apply`: a counter gets too high
exactly when a page that maps its frame is mapped anew.
-/

namespace Mks.CopyOnWrite

open RefCount

variable {ι κ δ : Type} [DecidableEq ι] [DecidableEq κ]

@[ext] structure Space (ι κ δ : Type) where
  map : ι → Option κ
  writable : ι → Bool
  count : κ → Nat
  base : κ → Nat
  data : κ → δ

inductive Move (ι κ δ : Type)
  /-- The owner takes a free frame. -/
  | reserve (f : κ)
  /-- The owner writes a frame it uses. -/
  | poke (f : κ) (v : δ)
  /-- A page gets a free frame. -/
  | fresh (n : ι) (f : κ)
  /-- A page that has its frame alone becomes writable. -/
  | reuse (n : ι) (f : κ)
  /-- A page leaves frame `f` for a copy of it in the free frame `g`. -/
  | copy (n : ι) (f g : κ)
  | protect (n : ι)
  /-- A page maps a frame that no page may write. -/
  | link (n : ι) (f : κ)
  | store (n : ι) (f : κ) (v : δ)

namespace Space

def apply (zero : δ) (s : Space ι κ δ) : Move ι κ δ → Space ι κ δ
  | .reserve f =>
      { s with
        count := Function.update s.count f 1
        base := Function.update s.base f 1
        data := Function.update s.data f zero }
  | .poke f v => { s with data := Function.update s.data f v }
  | .fresh n f =>
      { s with
        map := Function.update s.map n (some f)
        writable := Function.update s.writable n true
        count := Function.update s.count f 1
        data := Function.update s.data f zero }
  | .reuse n _ => { s with writable := Function.update s.writable n true }
  | .copy n f g =>
      { s with
        map := Function.update s.map n (some g)
        writable := Function.update s.writable n true
        count := Function.update (Function.update s.count g 1) f (s.count f - 1)
        data := Function.update s.data g (s.data f) }
  | .protect n => { s with writable := Function.update s.writable n false }
  | .link n f =>
      { s with
        map := Function.update s.map n (some f)
        writable := Function.update s.writable n false
        count := Function.update s.count f (s.count f + 1) }
  | .store _ f v => { s with data := Function.update s.data f v }

variable {zero : δ} {S : Finset ι} {s : Space ι κ δ}

def Allowed (S : Finset ι) (s : Space ι κ δ) : Move ι κ δ → Prop
  | .reserve f => s.count f = 0
  | .poke f _ => s.base f ≠ 0
  | .fresh n f => n ∈ S ∧ s.count f = 0
  | .reuse n f => n ∈ S ∧ s.map n = some f ∧ s.count f = 1
  | .copy n f g => n ∈ S ∧ s.map n = some f ∧ s.count f ≠ 1 ∧ s.count g = 0
  | .protect n => n ∈ S
  | .link n f => n ∈ S ∧ ∀ a ∈ S, s.map a = some f → s.writable a = false
  | .store n f _ => n ∈ S ∧ s.map n = some f ∧ s.writable n = true

/-! ## The counters -/

/-- The number of pages that map a frame. -/
def refs (S : Finset ι) (s : Space ι κ δ) (f : κ) : Nat := RefCount.count S s.map f

/-- How far the counter of a frame is above the number of its uses. -/
def slack (S : Finset ι) (s : Space ι κ δ) (f : κ) : Int := s.count f - s.refs S f - s.base f

structure Safe (S : Finset ι) (s : Space ι κ δ) : Prop where
  counted : ∀ f, s.refs S f + s.base f ≤ s.count f
  alone : ∀ n ∈ S, ∀ f, s.map n = some f → s.writable n = true → s.count f = 1

omit [DecidableEq ι] in
theorem Safe.one_le (h : s.Safe S) {n : ι} (hn : n ∈ S) {f : κ} (hf : s.map n = some f) :
    1 ≤ s.count f := by
  have hc := h.counted f
  have hr : 1 ≤ s.refs S f := one_le_count hn hf
  omega

omit [DecidableEq ι] in
/-- A free frame is in no use. -/
theorem Safe.free (h : s.Safe S) {f : κ} (hf : s.count f = 0) :
    s.refs S f = 0 ∧ s.base f = 0 ∧ ∀ n ∈ S, s.map n ≠ some f := by
  have hc := h.counted f
  refine ⟨by omega, by omega, fun n hn he => ?_⟩
  have := h.one_le hn he
  omega

omit [DecidableEq ι] in
/-- Two pages that map a frame with counter 1 are one page. -/
theorem Safe.eq_of_count (h : s.Safe S) {f : κ} (hf : s.count f = 1) {n n' : ι} (hn : n ∈ S)
    (hn' : n' ∈ S) (he : s.map n = some f) (he' : s.map n' = some f) : n = n' := by
  have hc := h.counted f
  have hr : RefCount.count S s.map f ≤ 1 := by
    show s.refs S f ≤ 1
    omega
  exact eq_of_count_le_one hr hn hn' he he'

/-- The frame that loses a reference when a page is mapped anew. -/
def lost (s : Space ι κ δ) : Move ι κ δ → κ → Int
  | .fresh n _, h | .link n _, h => if s.map n = some h then 1 else 0
  | _, _ => 0

theorem slack_apply (hs : s.Safe S) {mv : Move ι κ δ} (hmv : s.Allowed S mv) (h : κ) :
    (s.apply zero mv).slack S h = s.slack S h + s.lost mv h := by
  cases mv with
  | poke f v => simp [apply, slack, refs, lost]
  | reuse n f => simp [apply, slack, refs, lost]
  | protect n => simp [apply, slack, refs, lost]
  | store n f v => simp [apply, slack, refs, lost]
  | reserve f =>
      obtain ⟨hr, hb, -⟩ := hs.free hmv
      have hf : s.count f = 0 := hmv
      by_cases he : h = f
      · subst he
        simp only [slack, refs, apply, lost, Function.update_self] at hr ⊢
        omega
      · simp [slack, refs, apply, lost, Function.update_of_ne he]
  | fresh n f =>
      obtain ⟨hn, hf⟩ := hmv
      obtain ⟨hr, hb, hmap⟩ := hs.free hf
      have hcount := count_update s.map hn (some f) h
      have hmap := hmap n hn
      simp only [slack, refs, apply, lost] at hr ⊢
      rw [hcount]
      by_cases he : h = f
      · subst he
        rw [Function.update_self, if_neg hmap, if_pos rfl]
        omega
      · rw [Function.update_of_ne he, if_neg (fun e => he (Option.some.inj e).symm)]
        omega
  | copy n f g =>
      obtain ⟨hn, hf, hf1, hg⟩ := hmv
      obtain ⟨hr, hb, hmap⟩ := hs.free hg
      have hcount := count_update s.map hn (some g) h
      have hone := hs.one_le hn hf
      have hfg : f ≠ g := fun e => hmap n hn (e ▸ hf)
      simp only [slack, refs, apply, lost] at hr ⊢
      rw [hcount, hf]
      by_cases he : h = f
      · subst he
        rw [Function.update_self, if_pos rfl, if_neg (fun e => hfg (Option.some.inj e).symm)]
        omega
      · rw [Function.update_of_ne he, if_neg (fun e => he (Option.some.inj e).symm)]
        by_cases heg : h = g
        · subst heg
          rw [Function.update_self, if_pos rfl]
          omega
        · rw [Function.update_of_ne heg, if_neg (fun e => heg (Option.some.inj e).symm)]
          omega
  | link n f =>
      obtain ⟨hn, -⟩ := hmv
      have hcount := count_update s.map hn (some f) h
      simp only [slack, refs, apply, lost]
      rw [hcount]
      by_cases he : h = f
      · subst he
        rw [Function.update_self, if_pos rfl]
        omega
      · rw [Function.update_of_ne he, if_neg (fun e => he (Option.some.inj e).symm)]
        omega

omit [DecidableEq ι] in
theorem lost_nonneg (mv : Move ι κ δ) (h : κ) : 0 ≤ s.lost mv h := by
  unfold lost
  split
  · split <;> decide
  · split <;> decide
  · exact le_rfl

/-- **Every move keeps the space safe.** -/
theorem Safe.apply (hs : s.Safe S) {mv : Move ι κ δ} (hmv : s.Allowed S mv) :
    (s.apply zero mv).Safe S := by
  refine ⟨fun f => ?_, ?_⟩
  · have hslack : (s.apply zero mv).slack S f = _ := slack_apply hs hmv f
    have hlost := lost_nonneg (s := s) mv f
    have hc := hs.counted f
    simp only [slack] at hslack
    omega
  intro a ha f hf hw
  cases mv with
  | poke g v => exact hs.alone a ha f hf hw
  | store n g v => exact hs.alone a ha f hf hw
  | reserve g =>
      have hne : f ≠ g := fun e => (hs.free hmv).2.2 a ha (e ▸ hf)
      simp only [Space.apply] at *
      rw [Function.update_of_ne hne]
      exact hs.alone a ha f hf hw
  | reuse n g =>
      obtain ⟨hn, hg, hg1⟩ := hmv
      simp only [Space.apply] at *
      by_cases he : a = n
      · subst he
        rw [hf] at hg
        obtain rfl := Option.some.inj hg
        exact hg1
      · rw [Function.update_of_ne he] at hw
        exact hs.alone a ha f hf hw
  | protect n =>
      simp only [Space.apply] at *
      by_cases he : a = n
      · subst he
        rw [Function.update_self] at hw
        cases hw
      · rw [Function.update_of_ne he] at hw
        exact hs.alone a ha f hf hw
  | fresh n g =>
      obtain ⟨hn, hg⟩ := hmv
      simp only [Space.apply] at *
      by_cases he : a = n
      · subst he
        rw [Function.update_self] at hf
        obtain rfl := Option.some.inj hf
        exact Function.update_self ..
      · rw [Function.update_of_ne he] at hw hf
        have hne : f ≠ g := fun e => (hs.free hg).2.2 a ha (e ▸ hf)
        rw [Function.update_of_ne hne]
        exact hs.alone a ha f hf hw
  | copy n g g' =>
      obtain ⟨hn, hg, hg1, hfree⟩ := hmv
      have hgg : g' ≠ g := fun e => (hs.free hfree).2.2 n hn (e ▸ hg)
      simp only [Space.apply] at *
      by_cases he : a = n
      · subst he
        rw [Function.update_self] at hf
        obtain rfl := Option.some.inj hf
        rw [Function.update_of_ne hgg]
        exact Function.update_self ..
      · rw [Function.update_of_ne he] at hw hf
        have hf1 := hs.alone a ha f hf hw
        have hne : f ≠ g := fun e => hg1 (e ▸ hf1)
        have hne' : f ≠ g' := fun e => (hs.free hfree).2.2 a ha (e ▸ hf)
        rw [Function.update_of_ne hne, Function.update_of_ne hne']
        exact hf1
  | link n g =>
      obtain ⟨hn, hro⟩ := hmv
      simp only [Space.apply] at *
      by_cases he : a = n
      · subst he
        rw [Function.update_self] at hw
        cases hw
      · rw [Function.update_of_ne he] at hw hf
        have hne : f ≠ g := by
          rintro rfl
          rw [hro a ha hf] at hw
          cases hw
        rw [Function.update_of_ne hne]
        exact hs.alone a ha f hf hw

/-! ## The contents -/

/-- What a page holds; a page without a frame holds `zero`. -/
def contents (zero : δ) (s : Space ι κ δ) (n : ι) : δ := ((s.map n).map s.data).getD zero

/-- The frame of the page has no other use. -/
def Own (s : Space ι κ δ) (n : ι) : Prop := ∀ f, s.map n = some f → s.base f = 0

/-- What a move does to the contents of pages that share nothing. -/
def effect (zero : δ) (s : Space ι κ δ) (mv : Move ι κ δ) (c : ι → δ) : ι → δ :=
  match mv with
  | .fresh n _ => Function.update c n zero
  | .link n f => Function.update c n (s.data f)
  | .store n _ v => Function.update c n v
  | _ => c

omit [DecidableEq ι] [DecidableEq κ] in
theorem contents_some {n : ι} {f : κ} (h : s.map n = some f) : s.contents zero n = s.data f := by
  rw [contents, h]
  rfl

omit [DecidableEq ι] [DecidableEq κ] in
theorem contents_none {n : ι} (h : s.map n = none) : s.contents zero n = zero := by
  rw [contents, h]
  rfl

omit [DecidableEq ι] [DecidableEq κ] in
/-- The contents of a page whose frame keeps its data. -/
theorem contents_congr {s' : Space ι κ δ} {n : ι} (hmap : s'.map n = s.map n)
    (hdata : ∀ f, s.map n = some f → s'.data f = s.data f) :
    s'.contents zero n = s.contents zero n := by
  cases hn : s.map n with
  | none => rw [contents_none hn, contents_none (hmap.trans hn)]
  | some f => rw [contents_some hn, contents_some (hmap.trans hn), hdata f hn]

/-- **The pages seem to share nothing.** -/
theorem contents_apply (hs : s.Safe S) {mv : Move ι κ δ} (hmv : s.Allowed S mv) {a : ι}
    (ha : a ∈ S) (hown : s.Own a) :
    (s.apply zero mv).contents zero a = s.effect zero mv (s.contents zero) a := by
  cases mv with
  | reuse n f => rfl
  | protect n => rfl
  | reserve f =>
      refine contents_congr rfl fun g hg => ?_
      have hne : g ≠ f := fun e => (hs.free hmv).2.2 a ha (e ▸ hg)
      exact Function.update_of_ne hne _ _
  | poke f v =>
      refine contents_congr rfl fun g hg => ?_
      have hne : g ≠ f := fun e => hmv (e ▸ hown g hg)
      exact Function.update_of_ne hne _ _
  | fresh n f =>
      by_cases he : a = n
      · subst he
        simp [contents, apply, effect]
      · rw [effect, Function.update_of_ne he]
        refine contents_congr (Function.update_of_ne he _ _) fun g hg => ?_
        have hne : g ≠ f := fun e => (hs.free hmv.2).2.2 a ha (e ▸ hg)
        exact Function.update_of_ne hne _ _
  | copy n f g =>
      obtain ⟨hn, hf, -, hg⟩ := hmv
      show _ = s.contents zero a
      by_cases he : a = n
      · subst he
        rw [contents_some hf, contents_some (f := g) (Function.update_self ..)]
        exact Function.update_self ..
      · refine contents_congr (Function.update_of_ne he _ _) fun h hh => ?_
        have hne : h ≠ g := fun e => (hs.free hg).2.2 a ha (e ▸ hh)
        exact Function.update_of_ne hne _ _
  | link n f =>
      by_cases he : a = n
      · subst he
        rw [effect, Function.update_self, contents_some (f := f) (Function.update_self ..)]
        rfl
      · rw [effect, Function.update_of_ne he]
        exact contents_congr (Function.update_of_ne he _ _) fun _ _ => rfl
  | store n f v =>
      obtain ⟨hn, hf, hw⟩ := hmv
      by_cases he : a = n
      · subst he
        rw [effect, Function.update_self]
        refine (contents_some (f := f) ?_).trans (Function.update_self ..)
        exact hf
      · rw [effect, Function.update_of_ne he]
        refine contents_congr rfl fun g hg => ?_
        -- no other page maps the frame of a writable page
        have hne : g ≠ f := fun e =>
          he (hs.eq_of_count (hs.alone n hn f hf hw) ha hn (e ▸ hg) hf)
        exact Function.update_of_ne hne _ _

/-- A page keeps its frame to itself, unless it gets another one. -/
theorem Own.apply (hs : s.Safe S) {mv : Move ι κ δ} (hmv : s.Allowed S mv) {a : ι} (ha : a ∈ S)
    (hown : s.Own a) (hlink : ∀ f, mv = .link a f → s.base f = 0) :
    (s.apply zero mv).Own a := by
  intro g hg
  cases mv with
  | reuse n f => exact hown g hg
  | protect n => exact hown g hg
  | poke f v => exact hown g hg
  | store n f v => exact hown g hg
  | reserve f =>
      have hne : g ≠ f := fun e => (hs.free hmv).2.2 a ha (e ▸ hg)
      simp only [Space.apply]
      rw [Function.update_of_ne hne]
      exact hown g hg
  | fresh n f =>
      simp only [Space.apply] at *
      by_cases he : a = n
      · subst he
        rw [Function.update_self] at hg
        obtain rfl := Option.some.inj hg
        exact (hs.free hmv.2).2.1
      · rw [Function.update_of_ne he] at hg
        exact hown g hg
  | copy n f f' =>
      simp only [Space.apply] at *
      by_cases he : a = n
      · subst he
        rw [Function.update_self] at hg
        obtain rfl := Option.some.inj hg
        exact (hs.free hmv.2.2.2).2.1
      · rw [Function.update_of_ne he] at hg
        exact hown g hg
  | link n f =>
      simp only [Space.apply] at *
      by_cases he : a = n
      · subst he
        rw [Function.update_self] at hg
        obtain rfl := Option.some.inj hg
        exact hlink f rfl
      · rw [Function.update_of_ne he] at hg
        exact hown g hg

/-! ## Sequences of moves -/

def applyAll (zero : δ) (s : Space ι κ δ) : List (Move ι κ δ) → Space ι κ δ
  | [] => s
  | mv :: mvs => (s.apply zero mv).applyAll zero mvs

def AllAllowed (zero : δ) (S : Finset ι) (s : Space ι κ δ) : List (Move ι κ δ) → Prop
  | [] => True
  | mv :: mvs => s.Allowed S mv ∧ (s.apply zero mv).AllAllowed zero S mvs

def lostAll (zero : δ) (s : Space ι κ δ) (h : κ) : List (Move ι κ δ) → Int
  | [] => 0
  | mv :: mvs => s.lost mv h + (s.apply zero mv).lostAll zero h mvs

def effectAll (zero : δ) (s : Space ι κ δ) : List (Move ι κ δ) → (ι → δ) → ι → δ
  | [], c => c
  | mv :: mvs, c => (s.apply zero mv).effectAll zero mvs (s.effect zero mv c)

/-- The moves give page `a` no frame that has another use. -/
def OwnLinks (zero : δ) (s : Space ι κ δ) (a : ι) : List (Move ι κ δ) → Prop
  | [] => True
  | mv :: mvs => (∀ f, mv = .link a f → s.base f = 0) ∧ (s.apply zero mv).OwnLinks zero a mvs

theorem Safe.applyAll (hs : s.Safe S) {mvs : List (Move ι κ δ)} (h : s.AllAllowed zero S mvs) :
    (s.applyAll zero mvs).Safe S := by
  induction mvs generalizing s with
  | nil => exact hs
  | cons mv mvs ih => exact ih (hs.apply h.1) h.2

theorem slack_applyAll (hs : s.Safe S) {mvs : List (Move ι κ δ)} (h : s.AllAllowed zero S mvs)
    (f : κ) : (s.applyAll zero mvs).slack S f = s.slack S f + s.lostAll zero f mvs := by
  induction mvs generalizing s with
  | nil => simp [Space.applyAll, lostAll]
  | cons mv mvs ih =>
      rw [Space.applyAll, ih (hs.apply h.1) h.2, slack_apply hs h.1, lostAll]
      ring

theorem Own.applyAll (hs : s.Safe S) {mvs : List (Move ι κ δ)} (h : s.AllAllowed zero S mvs)
    {a : ι} (ha : a ∈ S) (hown : s.Own a) (hl : s.OwnLinks zero a mvs) :
    (s.applyAll zero mvs).Own a := by
  induction mvs generalizing s with
  | nil => exact hown
  | cons mv mvs ih => exact ih (hs.apply h.1) h.2 (hown.apply hs h.1 ha hl.1) hl.2

omit [DecidableEq κ] in
/-- What a move does to a page depends only on that page. -/
theorem effect_congr (mv : Move ι κ δ) {c c' : ι → δ} {a : ι} (h : c a = c' a) :
    s.effect zero mv c a = s.effect zero mv c' a := by
  cases mv with
  | fresh n f =>
      by_cases he : a = n
      · simp [effect, he]
      · simpa [effect, he] using h
  | link n f =>
      by_cases he : a = n
      · simp [effect, he]
      · simpa [effect, he] using h
  | store n f v =>
      by_cases he : a = n
      · simp [effect, he]
      · simpa [effect, he] using h
  | _ => exact h

theorem effectAll_congr {mvs : List (Move ι κ δ)} {c c' : ι → δ} {a : ι} (h : c a = c' a) :
    s.effectAll zero mvs c a = s.effectAll zero mvs c' a := by
  induction mvs generalizing s c c' with
  | nil => exact h
  | cons mv mvs ih => exact ih (effect_congr mv h)

theorem contents_applyAll (hs : s.Safe S) {mvs : List (Move ι κ δ)} (h : s.AllAllowed zero S mvs)
    {a : ι} (ha : a ∈ S) (hown : s.Own a) (hl : s.OwnLinks zero a mvs) :
    (s.applyAll zero mvs).contents zero a = s.effectAll zero mvs (s.contents zero) a := by
  induction mvs generalizing s with
  | nil => rfl
  | cons mv mvs ih =>
      rw [applyAll, ih (hs.apply h.1) h.2 (hown.apply hs h.1 ha hl.1) hl.2, effectAll]
      exact effectAll_congr (contents_apply hs h.1 ha hown)

end Space

end Mks.CopyOnWrite
