import Mks.Memory.Retry
import Mathlib.Data.Set.Basic

set_option autoImplicit false

/-! # What the functions of `kernel/memory.c` leave alone

`Grows s m m'` bounds what a call does outside the pages of `s`: free frames are taken, for page
tables among other things, and a page of the kernel window gets mapped when its frame is taken and
cleared, if it was not mapped before. Everything else that is in use stays as it is, and so does the
translation of the other pages. The relation composes (`Grows.trans`), so that it bounds a loop by
the pages of its iterations.
-/

namespace Mks.Mem

variable {m m' m₁ m₂ : Mem} {s s' : Set Nat}

structure Grows (s : Set Nat) (m m' : Mem) : Prop where
  used : ∀ f, m.memMap f ≠ UNUSED → m'.memMap f ≠ UNUSED
  /-- The page of a frame of the window is mapped when the kernel clears the frame. -/
  pte : ∀ n < 1048576, n ∉ s → m'.pte n = m.pte n ∨
    n < 16384 ∧ m.frameOf n = none ∧ m.memMap n = UNUSED ∧
      m'.frameOf n = some n ∧ m'.memMap n ≠ UNUSED
  /-- A new page table was a free frame. -/
  table : ∀ d < 1024, ∀ t, m'.tableOf d = some t → m.tableOf d = some t ∨ m.memMap t = UNUSED
  phys : ∀ f, m.memMap f ≠ UNUSED → f ≠ 7 → (∀ d < 1024, m.tableOf d ≠ some f) →
    m'.phys f = m.phys f

/-! ## The relation -/

theorem Grows.refl (s : Set Nat) (m : Mem) : Grows s m m :=
  ⟨fun _ hf => hf, fun _ _ _ => .inl rfl, fun _ _ _ ht => .inl ht, fun _ _ _ _ => rfl⟩

theorem Grows.mono (h : Grows s m m') (hs : s ⊆ s') : Grows s' m m' :=
  ⟨h.used, fun n hn hno => h.pte n hn fun hm => hno (hs hm), h.table, h.phys⟩

theorem Grows.frameOf_or (h : Grows s m m') {n : Nat} (hn : n < 1048576) (hno : n ∉ s) :
    m'.frameOf n = m.frameOf n ∨ n < 16384 ∧ m.frameOf n = none ∧ m'.frameOf n = some n := by
  rcases h.pte n hn hno with hp | ⟨hlt, habs, -, hf, -⟩
  · exact .inl (by rw [frameOf, hp, frameOf])
  · exact .inr ⟨hlt, habs, hf⟩

/-- A page that is mapped keeps its frame. -/
theorem Grows.frame_kept (h : Grows s m m') {n f : Nat} (hn : n < 1048576) (hno : n ∉ s)
    (hf : m.frameOf n = some f) : m'.frameOf n = some f := by
  rcases h.frameOf_or hn hno with he | ⟨-, habs, -⟩
  · rw [he, hf]
  · rw [habs] at hf
    cases hf

/-- So does a page of a process, mapped or not. -/
theorem Grows.pte_process (h : Grows s m m') {n : Nat} (hn : n < 1048576) (hno : n ∉ s)
    (hge : 16384 ≤ n) : m'.pte n = m.pte n := by
  rcases h.pte n hn hno with hp | ⟨hlt, -⟩
  · exact hp
  · omega

theorem Grows.trans (h : Grows s m m₁) (h' : Grows s m₁ m₂) : Grows s m m₂ where
  used f hf := h'.used f (h.used f hf)
  pte n hn hno := by
    rcases h.pte n hn hno with hp | ⟨hlt, habs, hun, hf, hused⟩
    · rcases h'.pte n hn hno with hp' | ⟨hlt, habs, hun, hf, hused⟩
      · exact .inl (hp'.trans hp)
      · refine .inr ⟨hlt, by rw [frameOf, ← hp]; exact habs, ?_, hf, hused⟩
        by_contra hne
        exact h.used n hne hun
    · exact .inr ⟨hlt, habs, hun, h'.frame_kept hn hno hf, h'.used n hused⟩
  table d hd t ht := by
    rcases h'.table d hd t ht with ht | hun
    · exact h.table d hd t ht
    · refine .inr ?_
      by_contra hne
      exact h.used t hne hun
  phys f hf h7 ht := by
    have ht₁ : ∀ d < 1024, m₁.tableOf d ≠ some f := by
      intro d hd hdf
      rcases h.table d hd f hdf with hold | hun
      · exact ht d hd hold
      · exact hf hun
    calc m₂.phys f = m₁.phys f := h'.phys f (h.used f hf) h7 ht₁
      _ = m.phys f := h.phys f hf h7 ht

/-! ## The steps -/

theorem grows_setMap {f : Nat} {c : BitVec 8} (hc : c ≠ UNUSED) : Grows ∅ m (m.setMap f c) where
  used g hg := by
    show Function.update m.memMap f c g ≠ UNUSED
    rw [Function.update_apply]
    split_ifs
    · exact hc
    · exact hg
  pte _ _ _ := .inl rfl
  table _ _ _ ht := .inl ht
  phys _ _ _ _ := rfl

theorem Tables.grows_putPte (h : Tables m) {n : Nat} (hn : n < 1048576)
    (ht : m.tableOf (n / 1024) ≠ none) (v : Word) : Grows {n} m (m.putPte n v) := by
  obtain ⟨t, ht⟩ := Option.ne_none_iff_exists'.mp ht
  constructor
  case used => exact fun f hf => hf
  case pte =>
    intro a ha hno
    have han : a ≠ n := fun e => hno (Set.mem_singleton_iff.mpr e)
    rw [h.pte_putPte hn ht v ha, if_neg han]
    exact .inl rfl
  case table =>
    intro d hd t' ht'
    rw [h.tableOf_putPte hn ht] at ht'
    exact .inl ht'
  case phys =>
    intro f _ _ hf
    rw [Tables.putPte_eq ht]
    exact put_phys_of_ne (fun e => hf _ (by omega) (e ▸ ht)) _ _

/-- The frames of one call of `get_free_page`. -/
theorem Allocated.grows {i : Nat} {js : List Nat} (hA : Allocated m i js m') : Grows ∅ m m' := by
  constructor
  case used =>
    intro f hf
    rw [hA.memMap]
    split_ifs
    · decide
    · exact hf
  case pte =>
    intro n hn _
    by_cases hmap : n ∈ i :: js ∧ m.frameOf n = none
    · obtain ⟨hm, habs⟩ := hmap
      obtain ⟨hlt, hun⟩ := hA.free n hm
      refine .inr ⟨hlt, habs, hun, hA.own n hm, ?_⟩
      rw [hA.memMap, if_pos hm]
      decide
    · exact .inl (hA.pte n hn (not_and_or.mp hmap))
  case table =>
    intro d _ t ht
    rcases hA.tableOf_or ht with hold | hnew
    · exact .inl hold
    · exact .inr (hA.free t (List.mem_cons_of_mem _ hnew)).2
  case phys =>
    intro f hf h7 ht
    exact hA.other f h7 (fun hm => hf (hA.free f hm).2) ht

section
variable {a : Word} {d i : Nat}

theorem Obtains.grows (ho : Obtains m i m') (h : Regular m) : Grows ∅ m m' := by
  cases ho with
  | now ha _ => exact (h.allocated ha).grows
  | later h0 ha =>
      have hA := h.allocated h0
      exact hA.grows.trans ((hA.regular h).allocated ha).grows

/-- A page table of zeros. -/
theorem TableMade.grows (hT : TableMade d m m') (h : Regular m) : Grows ∅ m m' := by
  cases hT with
  | here _ => exact .refl ∅ m
  | @made m₁ i habs ho =>
      have hob := ho.obtained h
      have hg := ho.grows h
      have hpte : ∀ n < 1048576, (m₁.setTable d i).pte n = if n / 1024 = d then 0 else m₁.pte n :=
        fun n hn => hob.regular.tables.setTable_pte hob.unlinked hob.lt hob.cleared d hn
      constructor
      case used => exact hg.used
      case pte =>
        intro n hn hno
        by_cases hd : n / 1024 = d
        · exact .inl (by rw [hpte n hn, if_pos hd, pte_none (hd ▸ habs)])
        · have hp : (m₁.setTable d i).pte n = m₁.pte n := by rw [hpte n hn, if_neg hd]
          have hF : (m₁.setTable d i).frameOf n = m₁.frameOf n := by rw [frameOf, hp, frameOf]
          rw [hp, hF]
          exact hg.pte n hn hno
      case table =>
        intro e he t ht
        rw [setTable_tableOf hob.lt, Function.update_apply] at ht
        split_ifs at ht
        · exact .inr (Option.some.inj ht ▸ hob.free)
        · exact hg.table e he t ht
      case phys =>
        intro f hf h7 ht
        rw [setTable, put_phys_of_ne h7]
        exact hg.phys f hf h7 ht

/-- A page that is mapped keeps its frame while a page table is made. -/
theorem TableMade.frame_kept (hT : TableMade d m m') (h : Regular m) {n f : Nat}
    (hn : n < 1048576) (hf : m.frameOf n = some f) : m'.frameOf n = some f :=
  (hT.grows h).frame_kept hn (Set.notMem_empty n) hf

theorem FromReady.grows (hR : FromReady a m m') (h : Regular m) : Grows {mapNr a} m m' := by
  cases hR with
  | here _ => exact .refl _ m
  | window _ hT _ =>
      exact ((hT.grows h).mono (Set.empty_subset _)).trans
        ((hT.regular h).tables.grows_putPte (mapNr_lt a) (hT.table h) _)
  | page _ hT _ ho =>
      have h₁ := hT.regular h
      have hob := ho.obtained h₁
      exact (((hT.grows h).trans (ho.grows h₁)).mono (Set.empty_subset _)).trans
        (hob.regular.tables.grows_putPte (mapNr_lt a) (hob.table (hT.table h)) _)

theorem Tables.grows_link (h : Tables m) {n c f : Nat} (hc : c < 1048576)
    (ht : m.tableOf (c / 1024) ≠ none) (hcount : m.memMap f ≠ 255) : Grows {c} m (m.link n c f) :=
  ((grows_setMap (add_one_ne_unused hcount)).mono (Set.empty_subset _)).trans
    ((h.setMap f _).grows_putPte hc ht _)

theorem Tables.grows_share (h : Tables m) {n c f : Nat} (hn : n < 1048576) (hc : c < 1048576)
    (hf : m.frameOf n = some f) (ht : m.tableOf (c / 1024) ≠ none) (hcount : m.memMap f ≠ 255) :
    Grows {n, c} m (m.share n c f) := by
  obtain ⟨t, ht'⟩ := Option.ne_none_iff_exists'.mp ht
  have hT := h.tableOf_link (a := n) (f := f) hc ht'
  refine ((h.grows_link hc ht hcount).mono (Set.subset_insert _ _)).trans
    (((h.congr hT).grows_putPte hn ?_ _).mono (Set.singleton_subset_iff.mpr (Set.mem_insert _ _)))
  rw [hT]
  exact covered_of_frameOf hf

end

end Mks.Mem
