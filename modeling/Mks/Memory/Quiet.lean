import Mks.Memory.Paged

set_option autoImplicit false

/-! # Changes that user code does not see

Making a page table, giving a frame to a page that has none, and both answers to a write fault are
`Quiet`: no counter gets worse, and no page changes its contents.
-/

namespace Mks.Mem

variable {M : MainMemory} {m m' : Mem}

/-- How far the counter of a frame is above the number of its uses. -/
def slack (M : MainMemory) (m : Mem) (f : Nat) : Int := (m.space M).slack pages f

/-- What a page holds, zeros if it is not mapped. -/
def contents (m : Mem) (n : Nat) : Nat → Word :=
  match m.frameOf n with
  | some f => m.phys f
  | none => zeroFrame

/-- The page is not mapped to a frame that the kernel uses. -/
def Own (M : MainMemory) (m : Mem) (n : Nat) : Prop := (m.space M).Own n

/-- The counters stay as good as they were, and so do the contents of the pages; only entries of
pages in `P` change. -/
structure Quiet (M : MainMemory) (P : Set Nat) (m m' : Mem) : Prop where
  paged : Paged M m'
  slack : ∀ f, m'.slack M f = m.slack M f
  contents : ∀ n ∈ pages, m.Own M n → m'.contents n = m.contents n
  own : ∀ n ∈ pages, m.Own M n → m'.Own M n
  pte : ∀ n < 1048576, n ∉ P → m'.pte n = m.pte n

section
variable {P Q : Set Nat} {m₁ : Mem}

theorem Quiet.refl (h : Paged M m) : Quiet M P m m where
  paged := h
  slack _ := rfl
  contents _ _ _ := rfl
  own _ _ h := h
  pte _ _ _ := rfl

theorem Quiet.trans (h : Quiet M P m m₁) (h' : Quiet M P m₁ m') : Quiet M P m m' where
  paged := h'.paged
  slack f := (h'.slack f).trans (h.slack f)
  contents n hn ho := (h'.contents n hn (h.own n hn ho)).trans (h.contents n hn ho)
  own n hn ho := h'.own n hn (h.own n hn ho)
  pte n hn hP := (h'.pte n hn hP).trans (h.pte n hn hP)

theorem Quiet.mono (h : Quiet M P m m') (hPQ : P ⊆ Q) : Quiet M Q m m' :=
  ⟨h.paged, h.slack, h.contents, h.own, fun n hn hQ => h.pte n hn fun hP => hQ (hPQ hP)⟩

theorem Quiet.frameOf (h : Quiet M P m m') {n : Nat} (hn : n < 1048576) (hP : n ∉ P) :
    m'.frameOf n = m.frameOf n := by
  rw [Mem.frameOf, h.pte n hn hP, Mem.frameOf]

end

open CopyOnWrite Space

theorem contents_eq {n : Nat} (hn : n ∈ pages) :
    (m.space M).contents zeroFrame n = m.contents n := by
  rw [Space.contents, space_map hn, contents]
  cases m.frameOf n <;> rfl

theorem contents_some {n f : Nat} (hf : m.frameOf n = some f) : m.contents n = m.phys f := by
  rw [contents, hf]

theorem contents_none {n : Nat} (hf : m.frameOf n = none) : m.contents n = zeroFrame := by
  rw [contents, hf]

/-- The contents after some moves. -/
theorem Moves.contents {mvs : List (Move Nat Nat (Nat → Word))} (h : Paged M m)
    (hm : Moves M m m' mvs) {n : Nat} (hn : n ∈ pages) (ho : m.Own M n)
    (hl : (m.space M).OwnLinks zeroFrame n mvs) :
    m'.contents n = (m.space M).effectAll zeroFrame mvs m.contents n := by
  rw [← contents_eq (M := M) hn, hm.space, contents_applyAll h.safe hm.allowed hn ho hl]
  exact effectAll_congr (contents_eq hn)

theorem Moves.own {mvs : List (Move Nat Nat (Nat → Word))} (h : Paged M m)
    (hm : Moves M m m' mvs) {n : Nat} (hn : n ∈ pages) (ho : m.Own M n)
    (hl : (m.space M).OwnLinks zeroFrame n mvs) : m'.Own M n := by
  rw [Own, hm.space]
  exact Own.applyAll h.safe hm.allowed hn ho hl

theorem Moves.slack {mvs : List (Move Nat Nat (Nat → Word))} (h : Paged M m)
    (hm : Moves M m m' mvs) (f : Nat) :
    m'.slack M f = m.slack M f + (m.space M).lostAll zeroFrame f mvs := by
  rw [Mem.slack, hm.space, slack_applyAll h.safe hm.allowed, Mem.slack]

/-- Moves without links, that only give frames to pages that had none. -/
theorem Moves.quiet {mvs : List (Move Nat Nat (Nat → Word))} {P : Set Nat} (h : Paged M m)
    (hm : Moves M m m' mvs) (hlost : ∀ f, (m.space M).lostAll zeroFrame f mvs = 0)
    (heff : (m.space M).effectAll zeroFrame mvs m.contents = m.contents)
    (hl : ∀ n, (m.space M).OwnLinks zeroFrame n mvs)
    (hpte : ∀ n < 1048576, n ∉ P → m'.pte n = m.pte n) : Quiet M P m m' where
  paged := hm.paged
  slack f := by rw [hm.slack h, hlost, add_zero]
  contents n hn ho := by rw [hm.contents h hn ho (hl n), heff]
  own n hn ho := hm.own h hn ho (hl n)
  pte := hpte

section
variable {n t i : Nat}

theorem Paged.quiet_newTable (h : Paged M m) (hi : Free m i) {d : Nat} (hd : 16 ≤ d)
    (hd' : d < 1024) (habs : m.tableOf d = none) : Quiet M ∅ m (m.newTable d i) := by
  obtain ⟨v, hm⟩ := h.newTable hi hd hd' habs
  refine hm.quiet h (fun f => ?_) rfl (fun n => ?_) fun n hn _ => h.pte_newTable hi habs hn
  · simp [lostAll, lost]
  · simp [OwnLinks]

theorem Paged.quiet_newPage (h : Paged M m) (hi : Free m i) (hn : n ∈ pages)
    (ht : m.tableOf (n / 1024) = some t) (habs : m.frameOf n = none) :
    Quiet M {n} m (m.newPage n i) := by
  obtain ⟨v, hm⟩ := h.newPage hi hn ht
  refine hm.quiet h (fun f => ?_) ?_ (fun n => ?_) fun a ha hne => ?_
  · simp [lostAll, lost, space_map hn, habs]
  · show Function.update m.contents n zeroFrame = m.contents
    rw [← contents_none habs]
    exact Function.update_eq_self ..
  · simp [OwnLinks]
  · exact (h.pte_fillPage hi (alloc_phys i) hn ht ha).trans (if_neg hne)

theorem Paged.quiet_unprotect (h : Paged M m) (hn : n ∈ pages) {f : Nat} (hf : m.frameOf n = some f)
    (hone : m.memMap f = 1) : Quiet M {n} m (m.unprotect n) := by
  obtain ⟨t, ht⟩ := tableOf_of_frameOf hf
  obtain ⟨t', v, hm⟩ := h.unprotect hn hf hone
  refine hm.quiet h (fun f => ?_) rfl (fun n => ?_) fun a ha hne => ?_
  · simp [lostAll, lost]
  · simp [OwnLinks]
  · exact (h.tables.pte_putPte (mem_pages.mp hn).2 ht _ ha).trans (if_neg hne)

theorem Paged.quiet_copyOut (h : Paged M m) (hi : Free m i) (hn : n ∈ pages) {f : Nat}
    (hf : m.frameOf n = some f) (hone : m.memMap f ≠ 1) : Quiet M {n} m (m.copyOut n f i) := by
  obtain ⟨t, ht⟩ := tableOf_of_frameOf hf
  obtain ⟨t', v, hm⟩ := h.copyOut hi hn hf hone
  refine hm.quiet h (fun f => ?_) rfl (fun n => ?_) fun a ha hne => ?_
  · simp [lostAll, lost]
  · simp [OwnLinks]
  · exact (h.pte_fillPage hi rfl hn ht ha).trans (if_neg hne)

end

end Mks.Mem
