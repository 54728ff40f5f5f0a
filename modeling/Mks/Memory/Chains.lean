import Mks.Memory.Allocation

set_option autoImplicit false

/-! # The frames that one call of `get_free_page` takes

In a `Regular` memory, where no free frame is a page table, one call takes a chain of frames
(`Allocates`): the frame it returns, a page table for its block if it is frame `0x3FD` of a block
without one, a page table for the block of that frame, and so on. What the call changes says
`Allocated`.
-/

namespace Mks.Mem

variable {m m' m₁ : Mem} {i j : Nat} {js : List Nat}

/-! ## The free frames -/

/-- The frames below `n` that are not in use. -/
@[irreducible] def unused (m : Mem) (n : Nat) : List Nat :=
  (List.range n).filter fun f => m.memMap f = UNUSED

def frees (m : Mem) : List Nat := m.unused PAGING_PAGES

theorem unused_nodup (m : Mem) (n : Nat) : (m.unused n).Nodup := by
  rw [unused]
  exact List.nodup_range.filter _

theorem mem_frees : i ∈ m.frees ↔ i < PAGING_PAGES ∧ m.memMap i = UNUSED := by
  rw [frees, unused, List.mem_filter, List.mem_range, decide_eq_true_eq]

theorem frees_head (m : Mem) : m.frees.head? = m.firstFree := by
  unfold frees firstFree
  generalize PAGING_PAGES = n
  rw [unused, firstUnused, List.head?_filter]

theorem frees_congr (h : m'.memMap = m.memMap) : m'.frees = m.frees := by
  unfold frees
  rw [unused, unused, h]

theorem firstFree_cons {i : Nat} {rest : List Nat} (h : m.frees = i :: rest) :
    m.firstFree = some i := by
  rw [← frees_head, h, List.head?_cons]

theorem firstFree_nil (h : m.frees = []) : m.firstFree = none := by
  rw [← frees_head, h, List.head?_nil]

theorem unused_update {i : Nat} {v : BitVec 8} (hv : v ≠ UNUSED)
    (hm : m'.memMap = Function.update m.memMap i v) (n : Nat) :
    m'.unused n = (m.unused n).filter fun f => f ≠ i := by
  rw [unused, unused, List.filter_filter]
  refine List.filter_congr fun f _ => ?_
  rw [hm]
  by_cases hfi : f = i
  · subst hfi
    simp [hv]
  · simp [hfi]

/-- The first free frame has been taken. -/
theorem frees_take {i : Nat} (hf : m.firstFree = some i)
    (hm : m'.memMap = Function.update m.memMap i 1) : m.frees = i :: m'.frees := by
  obtain ⟨rest, hrest⟩ := List.head?_eq_some_iff.mp ((frees_head m).trans hf)
  have hnd : m.frees.Nodup := unused_nodup m _
  rw [hrest] at hnd
  have hi : i ∉ rest := (List.nodup_cons.mp hnd).1
  have hfilter : m'.frees = m.frees.filter fun f => f ≠ i := unused_update (by decide) hm _
  rw [hfilter, hrest, List.filter_cons_of_neg (by simp), List.filter_eq_self.mpr]
  intro f hf
  have hfi : f ≠ i := fun e => hi (e ▸ hf)
  simpa using hfi

/-! ## Regular memories -/

/-- The page tables are frames of their own, in use, and the kernel page of a free frame is mapped
to that frame if at all. -/
structure Regular (m : Mem) : Prop where
  tables : Tables m
  unlinked : ∀ i < PAGING_PAGES, m.memMap i = UNUSED → Unlinked m i
  identity : ∀ i < PAGING_PAGES, m.memMap i = UNUSED → ∀ f, m.frameOf i = some f → f = i

theorem Window.regular {hi : Nat} (h : Window hi m) : Regular m where
  tables := h.tables
  unlinked _ _ hun := h.unlinked hun
  identity i hlt _ := h.identity i hlt

/-- The kernel finds its own memory and the page tables at their addresses. -/
structure Direct (m : Mem) : Prop extends Regular m where
  own : ∀ n < 160, m.frameOf n = some n
  reached : ∀ d < 1024, ∀ t, m.tableOf d = some t → m.frameOf t = some t

theorem Window.direct {hi : Nat} (h : Window hi m) : Direct m where
  toRegular := h.regular
  own n hn := h.kernelPage n (by omega)
  reached d hd t ht := (h.reached d hd t ht).2

theorem memMap_setMap {c : BitVec 8} (hc : c ≠ UNUSED) {f : Nat}
    (h : (m.setMap i c).memMap f = UNUSED) : f ≠ i ∧ m.memMap f = UNUSED := by
  have hne : f ≠ i := by
    rintro rfl
    rw [show (m.setMap f c).memMap f = c from Function.update_self ..] at h
    exact hc h
  exact ⟨hne, (Function.update_of_ne hne _ _).symm.trans h⟩

/-- A frame is used once more. -/
theorem Regular.setMap (h : Regular m) (i : Nat) {c : BitVec 8} (hc : c ≠ UNUSED) :
    Regular (m.setMap i c) where
  tables := h.tables.setMap i c
  unlinked f hlt hf := (h.unlinked f hlt (memMap_setMap hc hf).2).congr rfl
  identity f hlt hf := h.identity f hlt (memMap_setMap hc hf).2

/-! ## One frame -/

theorem Unlinked.grab_pte (hu : Unlinked m i) (h : Tables m) (hlt : i < PAGING_PAGES)
    (hcov : m.Covered i) {n : Nat} (hn : n < 1048576) (hne : n ≠ i ∨ m.frameOf n ≠ none) :
    (m.grab i).pte n = m.pte n := by
  rw [(hu.reach h hlt hcov).fill_pte (grab_phys m i) hn]
  by_cases hni : n = i
  · subst hni
    -- the page of the frame was mapped before
    have hmap : m.frameOf n ≠ none := hne.resolve_left fun hne => hne rfl
    rw [Mem.reach, if_pos (Option.isSome_iff_ne_none.mpr hmap)]
  · exact h.reach_pte hlt hcov hn hni

theorem Unlinked.grab_other (hcov : m.Covered i) (hlt : i < PAGING_PAGES) {f : Nat} (hfi : f ≠ i)
    (ht : ∀ d < 1024, m.tableOf d ≠ some f) : (m.grab i).phys f = m.phys f := by
  have hnr := mapNr_frameAddr (i := i) (lt_frames hlt)
  rw [grab_phys, Function.update_of_ne hfi]
  unfold Mem.reach
  split_ifs
  · rfl
  · obtain ⟨t, ht'⟩ := Option.ne_none_iff_exists'.mp hcov
    have hft : f ≠ t := fun e => ht _ (Nat.div_lt_of_lt_mul (lt_frames hlt)) (e ▸ ht')
    rw [Mem.mapSelf, Tables.putPte_eq (hnr.symm ▸ ht'), put_phys_of_ne hft]

/-! ## A page table -/

/-- `create_page_table` puts a frame into the page directory. -/
def setTable (m : Mem) (d j : Nat) : Mem := m.put 7 d (frameAddr j ||| 7)

theorem setTable_dir (m : Mem) (d j : Nat) :
    (m.setTable d j).phys 7 = Function.update (m.phys 7) d (frameAddr j ||| 7) := put_phys ..

theorem setTable_tableOf (hj : j < PAGING_PAGES) (d : Nat) :
    (m.setTable d j).tableOf = Function.update m.tableOf d (some j) := by
  rw [setTable, tableOf_put, entryFrame_frameAddr (lt_frames hj)]

/-- The block of a new page table maps nothing. -/
theorem Tables.setTable_pte (h : Tables m) (hu : Unlinked m j) (hj : j < PAGING_PAGES)
    (hz : m.phys j = zeroFrame) (d : Nat) {n : Nat} (hn : n < 1048576) :
    (m.setTable d j).pte n = if n / 1024 = d then 0 else m.pte n := by
  have hT := congrFun (setTable_tableOf (m := m) hj d) (n / 1024)
  split_ifs with hnd
  · subst hnd
    rw [Function.update_self] at hT
    rw [pte_some hT, setTable, put_phys_of_ne hu.ne_dir, hz]
    rfl
  · rw [Function.update_of_ne hnd] at hT
    cases ht : m.tableOf (n / 1024) with
    | none => rw [pte_none (hT.trans ht), pte_none ht]
    | some t =>
        rw [pte_some (hT.trans ht), pte_some ht, setTable,
          put_phys_of_ne (h.ne _ (by omega) t ht)]

theorem Unlinked.setTable_tables (hu : Unlinked m j) (h : Tables m) (hj : j < PAGING_PAGES)
    (d : Nat) : Tables (m.setTable d j) :=
  hu.install_tables h (Function.update_eq_self j m.phys).symm
    (lt_frames hj) d

/-- `create_page_table` has made the page table for the candidate, which is free again. -/
def tabled (m : Mem) (i j : Nat) : Mem := (m.setTable (i / 1024) j).setMap i 0

theorem tabled_tableOf (hj : j < PAGING_PAGES) (i : Nat) :
    (m.tabled i j).tableOf = Function.update m.tableOf (i / 1024) (some j) := setTable_tableOf hj _

theorem tabled_covered (hj : j < PAGING_PAGES) (i : Nat) : (m.tabled i j).Covered i := by
  unfold Covered
  rw [tabled_tableOf hj, Function.update_self]
  exact Option.some_ne_none j

/-! ## The frames of one call -/

/-- `get_free_page` returns frame `i`, with the frames `js` for page tables: the first for the block
of `i`, the next for the block of the first, and so on. -/
inductive Allocates : Mem → Nat → List Nat → Mem → Prop
  | covered {m : Mem} {i : Nat} (hf : m.firstFree = some i) (hcov : m.Covered i) :
      Allocates m i [] (m.grab i)
  | table {m m₁ : Mem} {i j : Nat} {js : List Nat} (hf : m.firstFree = some i)
      (hno : ¬ m.Covered i) (hmod : i % 1024 = 1021)
      (hj : Allocates (m.setMap i 1) j js m₁) :
      Allocates m i (j :: js) ((m₁.tabled i j).grab i)

theorem Allocates.firstFree (ha : Allocates m i js m') : m.firstFree = some i := by
  cases ha with
  | covered hf _ => exact hf
  | table hf _ _ _ => exact hf

/-- What a call that returns frame `i` and takes the frames `js` for page tables changes. -/
structure Allocated (m : Mem) (i : Nat) (js : List Nat) (m' : Mem) : Prop where
  free : ∀ f ∈ i :: js, f < PAGING_PAGES ∧ m.memMap f = UNUSED
  nodup : (i :: js).Nodup
  memMap : ∀ f, m'.memMap f = if f ∈ i :: js then 1 else m.memMap f
  cleared : m'.phys i = zeroFrame
  /-- The page directory changes in absent entries only, those of the blocks of frames `0x3FD`. -/
  dir : ∀ d, m'.phys 7 d = m.phys 7 d ∨
    m.tableOf d = none ∧ (∃ g ∈ i :: js, g % 1024 = 1021 ∧ g / 1024 = d) ∧
      ∃ j ∈ js, m'.phys 7 d = frameAddr j ||| 7
  linked : ∀ j ∈ js, ∃ d < 1024, m.tableOf d = none ∧ m'.phys 7 d = frameAddr j ||| 7
  /-- The pages keep their entries, but those of the frames taken, where they were not mapped. -/
  pte : ∀ n < 1048576, n ∉ i :: js ∨ m.frameOf n ≠ none → m'.pte n = m.pte n
  own : ∀ f ∈ i :: js, m'.frameOf f = some f
  other : ∀ f, f ≠ 7 → f ∉ i :: js → (∀ d < 1024, m.tableOf d ≠ some f) → m'.phys f = m.phys f
  tables : Tables m'

/-- The page tables after the call. -/
theorem Allocated.tableOf_or (h : Allocated m i js m') {d t : Nat} (ht : m'.tableOf d = some t) :
    m.tableOf d = some t ∨ t ∈ js := by
  rcases h.dir d with hd | ⟨-, -, j, hj, hd⟩
  · rw [tableOf, hd] at ht
    exact .inl ht
  · have hlt := (h.free j (List.mem_cons_of_mem _ hj)).1
    rw [tableOf, hd, entryFrame_frameAddr (lt_frames hlt)] at ht
    exact .inr (Option.some.inj ht ▸ hj)

/-- The other frames that were free are still no page tables. -/
theorem Allocated.unlinked (h : Allocated m i js m') {f : Nat} (hu : Unlinked m f) (hf : f ∉ js) :
    Unlinked m' f where
  ne_dir := hu.ne_dir
  ne_table d hd ht := by
    rcases h.tableOf_or ht with hold | hnew
    · exact hu.ne_table d hd hold
    · exact hf hnew

/-- The first free frame has a page table. -/
theorem Regular.grab (h : Regular m) (hf : m.firstFree = some i) (hcov : m.Covered i) :
    Allocated m i [] (m.grab i) := by
  obtain ⟨hlt, hun, -⟩ := firstFree_some hf
  have hu := h.unlinked i hlt hun
  constructor
  case free =>
    intro f hf
    rw [List.mem_singleton.mp hf]
    exact ⟨hlt, hun⟩
  case nodup => exact List.nodup_singleton i
  case memMap =>
    intro f
    rw [grab_memMap, Function.update_apply]
    simp only [List.mem_singleton]
  case cleared => rw [grab_phys, Function.update_self]
  case dir => exact fun d => .inl (congrFun (hu.grab_dir h.tables hlt hcov) d)
  case linked => exact fun j hj => absurd hj List.not_mem_nil
  case pte =>
    intro n hn hno
    refine hu.grab_pte h.tables hlt hcov hn (hno.imp_left fun hno e => hno ?_)
    rw [e]
    exact List.mem_singleton_self i
  case own =>
    intro f hf
    obtain rfl := List.mem_singleton.mp hf
    rw [hu.grab_frameOf h.tables (h.identity f hlt hun) hlt hcov
      (lt_frames hlt), if_pos rfl]
  case other =>
    intro f _ hfi ht
    exact Unlinked.grab_other hcov hlt (fun e => hfi (e ▸ List.mem_singleton_self _)) ht
  case tables => exact h.tables.congr (hu.grab_tableOf h.tables hlt hcov)

section
variable (hA : Allocated (m.setMap i 1) j js m₁)
include hA

theorem Allocated.taken {f : Nat} (hm : f ∈ j :: js) :
    f < PAGING_PAGES ∧ f ≠ i ∧ m.memMap f = UNUSED :=
  ⟨(hA.free f hm).1, memMap_setMap (by decide) (hA.free f hm).2⟩

/-- The candidate is not taken by the call for its page table. -/
theorem Allocated.notMem : i ∉ j :: js := fun hm => (hA.taken hm).2.1 rfl

/-- That call makes no page table for the block of the candidate. -/
theorem Allocated.absent (hno : ¬ m.Covered i) (hmod : i % 1024 = 1021) :
    m₁.tableOf (i / 1024) = none := by
  rcases hA.dir (i / 1024) with hd | ⟨-, ⟨g, hg, hgmod, hgd⟩, -⟩
  · rw [tableOf, hd]
    exact not_not.mp hno
  · -- such a frame is the candidate itself
    have hgi : g = i := by omega
    exact absurd (hgi ▸ hg) hA.notMem

theorem Allocated.table_memMap (f : Nat) : ((m₁.tabled i j).grab i).memMap f =
    if f ∈ i :: j :: js then 1 else m.memMap f := by
  rw [grab_memMap, show (m₁.tabled i j).memMap = Function.update m₁.memMap i 0 from rfl,
    Function.update_idem]
  by_cases hfi : f = i
  · rw [hfi, Function.update_self, if_pos (List.mem_cons_self ..)]
  · rw [Function.update_of_ne hfi, hA.memMap,
      show (m.setMap i 1).memMap f = m.memMap f from Function.update_of_ne hfi _ _]
    simp [hfi]

/-- A frame that is no page table becomes one only if the call takes it. -/
theorem Allocated.tabled_ne {f d : Nat} (hf : f ∉ j :: js) (ht : m.tableOf d ≠ some f) :
    (m₁.tabled i j).tableOf d ≠ some f := by
  intro hdf
  rw [tabled_tableOf (hA.taken (List.mem_cons_self ..)).1] at hdf
  by_cases hdi : d = i / 1024
  · rw [hdi, Function.update_self] at hdf
    exact hf (Option.some.inj hdf ▸ List.mem_cons_self ..)
  · rw [Function.update_of_ne hdi] at hdf
    rcases hA.tableOf_or hdf with hold | hnew
    · exact ht hold
    · exact hf (List.mem_cons_of_mem _ hnew)

variable (h : Regular m)
include h

theorem Regular.unlinked_table : Unlinked m₁ j := by
  obtain ⟨hlt, -, hun⟩ := hA.taken (List.mem_cons_self ..)
  exact hA.unlinked ((h.unlinked j hlt hun).congr rfl) (List.nodup_cons.mp hA.nodup).1

theorem Regular.tabled_tables : Tables (m₁.tabled i j) :=
  ((h.unlinked_table hA).setTable_tables hA.tables (hA.taken (List.mem_cons_self ..)).1 _).setMap i 0

theorem Regular.tabled_unlinked (hf : m.firstFree = some i) : Unlinked (m₁.tabled i j) i := by
  obtain ⟨hlt, hun, -⟩ := firstFree_some hf
  have hu := h.unlinked i hlt hun
  exact ⟨hu.ne_dir, fun d hd => hA.tabled_ne hA.notMem (hu.ne_table d hd)⟩

variable (hno : ¬ m.Covered i) (hmod : i % 1024 = 1021)
include hno hmod

theorem Regular.tabled_pte {n : Nat} (hn : n < 1048576) : (m₁.tabled i j).pte n = m₁.pte n := by
  have hjlt := (hA.taken (List.mem_cons_self ..)).1
  refine (hA.tables.setTable_pte (h.unlinked_table hA) hjlt hA.cleared (i / 1024) hn).trans ?_
  split_ifs with hd
  · rw [pte_none (hd ▸ hA.absent hno hmod)]
  · rfl

/-- The page of the candidate has not been mapped. -/
theorem Regular.tabled_frameOf (hlt : i < PAGING_PAGES) : (m₁.tabled i j).frameOf i = none := by
  have hi := lt_frames hlt
  calc (m₁.tabled i j).frameOf i = m₁.frameOf i := by
        rw [frameOf, h.tabled_pte hA hno hmod hi, frameOf]
    _ = (m.setMap i 1).frameOf i := by rw [frameOf, hA.pte i hi (.inl hA.notMem), frameOf]
    _ = none := frameOf_none (not_not.mp hno)

omit h

/-- The new page table stands in the page directory. -/
theorem Allocated.table_dir (d : Nat) :
    Function.update (m₁.phys 7) (i / 1024) (frameAddr j ||| 7) d = m.phys 7 d ∨
      m.tableOf d = none ∧ (∃ g ∈ i :: j :: js, g % 1024 = 1021 ∧ g / 1024 = d) ∧ ∃ j' ∈ j :: js,
        Function.update (m₁.phys 7) (i / 1024) (frameAddr j ||| 7) d = frameAddr j' ||| 7 := by
  by_cases hd : d = i / 1024
  · rw [hd, Function.update_self]
    exact .inr ⟨not_not.mp hno, ⟨i, List.mem_cons_self .., hmod, rfl⟩, j, List.mem_cons_self .., rfl⟩
  · rw [Function.update_of_ne hd]
    rcases hA.dir d with hd' | ⟨hd', ⟨g, hg, hgd⟩, j', hj', hlink⟩
    · exact .inl hd'
    · exact .inr ⟨hd', ⟨g, List.mem_cons_of_mem _ hg, hgd⟩, j', List.mem_cons_of_mem _ hj', hlink⟩

/-- The page tables made before stand in other entries. -/
theorem Allocated.table_linked (hlt : i < PAGING_PAGES) : ∀ j' ∈ j :: js, ∃ d < 1024,
    m.tableOf d = none ∧
      Function.update (m₁.phys 7) (i / 1024) (frameAddr j ||| 7) d = frameAddr j' ||| 7 := by
  intro j' hj'
  rcases List.mem_cons.mp hj' with rfl | hj'
  · exact ⟨i / 1024, Nat.div_lt_of_lt_mul (lt_frames hlt), not_not.mp hno, Function.update_self ..⟩
  · obtain ⟨d, hd, habs, hlink⟩ := hA.linked j' hj'
    have hdi : d ≠ i / 1024 := by
      rintro rfl
      have hnone := hA.absent hno hmod
      have hj'lt := (hA.free j' (List.mem_cons_of_mem _ hj')).1
      rw [tableOf, hlink, entryFrame_frameAddr (lt_frames hj'lt)] at hnone
      cases hnone
    exact ⟨d, hd, habs, (Function.update_of_ne hdi _ _).trans hlink⟩

include h

/-- The first free frame gets its page table. -/
theorem Regular.table (hf : m.firstFree = some i) :
    Allocated m i (j :: js) ((m₁.tabled i j).grab i) := by
  obtain ⟨hlt, hun, -⟩ := firstFree_some hf
  have hT := h.tabled_tables hA
  have hu := h.tabled_unlinked hA hf
  have hcov : (m₁.tabled i j).Covered i := tabled_covered (hA.taken (List.mem_cons_self ..)).1 i
  have hdir : ((m₁.tabled i j).grab i).phys 7
      = Function.update (m₁.phys 7) (i / 1024) (frameAddr j ||| 7) :=
    (hu.grab_dir hT hlt hcov).trans (setTable_dir m₁ _ j)
  constructor
  case free =>
    intro f hm
    rcases List.mem_cons.mp hm with rfl | hm
    · exact ⟨hlt, hun⟩
    · exact ⟨(hA.taken hm).1, (hA.taken hm).2.2⟩
  case nodup => exact List.nodup_cons.mpr ⟨hA.notMem, hA.nodup⟩
  case memMap => exact hA.table_memMap
  case cleared => rw [grab_phys, Function.update_self]
  case dir =>
    rw [hdir]
    exact hA.table_dir hno hmod
  case linked =>
    rw [hdir]
    exact hA.table_linked hno hmod hlt
  case pte =>
    intro n hn hkeep
    have hni : n ≠ i := by
      rintro rfl
      rcases hkeep with hkeep | hkeep
      · exact hkeep (List.mem_cons_self ..)
      · exact hkeep (frameOf_none (not_not.mp hno))
    calc ((m₁.tabled i j).grab i).pte n = (m₁.tabled i j).pte n :=
          hu.grab_pte hT hlt hcov hn (.inl hni)
      _ = m₁.pte n := h.tabled_pte hA hno hmod hn
      _ = m.pte n := hA.pte n hn (hkeep.imp_left fun hno hm => hno (List.mem_cons_of_mem _ hm))
  case own =>
    intro f hm
    have hflt : f < 1048576 := by
      rcases List.mem_cons.mp hm with rfl | hm
      · exact lt_frames hlt
      · exact lt_frames (hA.free f hm).1
    have hfi : (m₁.tabled i j).frameOf i = none := h.tabled_frameOf hA hno hmod hlt
    rw [hu.grab_frameOf hT (fun g hg => by rw [hfi] at hg; cases hg) hlt hcov hflt]
    split_ifs with hfi
    · rw [hfi]
    · rw [frameOf, h.tabled_pte hA hno hmod hflt]
      exact hA.own f ((List.mem_cons.mp hm).resolve_left hfi)
  case other =>
    intro f h7 hm ht
    have hfA : f ∉ j :: js := fun hm' => hm (List.mem_cons_of_mem _ hm')
    calc ((m₁.tabled i j).grab i).phys f = (m₁.tabled i j).phys f :=
          Unlinked.grab_other hcov hlt (fun e => hm (e ▸ List.mem_cons_self ..))
            fun d hd => hA.tabled_ne hfA (ht d hd)
      _ = m₁.phys f := put_phys_of_ne h7 _ _
      _ = m.phys f := hA.other f h7 hfA ht
  case tables => exact hT.congr (hu.grab_tableOf hT hlt hcov)

end

theorem Regular.allocated (h : Regular m) (ha : Allocates m i js m') :
    Allocated m i js m' := by
  induction ha with
  | covered hf hcov => exact h.grab hf hcov
  | @table m m₁ i j js hf hno hmod hj ih => exact h.table (ih (h.setMap i (by decide))) hno hmod hf

/-- What is no frame of the call is as free as before. -/
theorem Allocated.unused (h : Allocated m i js m') {f : Nat} (hf : m'.memMap f = UNUSED) :
    f ∉ i :: js ∧ m.memMap f = UNUSED := by
  rw [h.memMap] at hf
  split_ifs at hf with hm
  · exact absurd hf (by decide)
  · exact ⟨hm, hf⟩

theorem Allocated.regular (hA : Allocated m i js m') (h : Regular m) : Regular m' where
  tables := hA.tables
  unlinked f hlt hf := by
    obtain ⟨hm, hun⟩ := hA.unused hf
    exact hA.unlinked (h.unlinked f hlt hun) fun hj => hm (List.mem_cons_of_mem _ hj)
  identity f hlt hf g hg := by
    obtain ⟨hm, hun⟩ := hA.unused hf
    rw [frameOf, hA.pte f (lt_frames hlt) (.inl hm)] at hg
    exact h.identity f hlt hun g hg

/-- The pages of processes keep their entries. -/
theorem Allocated.pte_process (hA : Allocated m i js m') {n : Nat} (hn : n < 1048576)
    (hge : 16384 ≤ n) : m'.pte n = m.pte n := by
  refine hA.pte n hn (.inl fun hm => ?_)
  have hlt : n < 16384 := (hA.free n hm).1
  omega

/-- A page table once there stays there. -/
theorem Allocated.dir_kept (hA : Allocated m i js m') {d : Nat} (hd : m.tableOf d ≠ none) :
    m'.phys 7 d = m.phys 7 d := by
  rcases hA.dir d with he | ⟨habs, -⟩
  · exact he
  · exact absurd habs hd

/-! ## Entries -/

/-- A page gets an entry that does not put another frame in the place of a free one. -/
theorem Regular.putPte (h : Regular m) {n : Nat} {v : Word} (hn : n < 1048576)
    (ht : m.tableOf (n / 1024) ≠ none)
    (hv : n < PAGING_PAGES → m.memMap n = UNUSED → ∀ f, entryFrame v = some f → f = n) :
    Regular (m.putPte n v) := by
  obtain ⟨t, ht⟩ := Option.ne_none_iff_exists'.mp ht
  have hT := h.tables.tableOf_putPte hn ht v
  constructor
  case tables => exact h.tables.congr hT
  case unlinked => exact fun i hlt hun => (h.unlinked i hlt hun).congr hT
  case identity =>
    intro i hlt hun f hf
    rw [frameOf, h.tables.pte_putPte hn ht v (lt_frames hlt)] at hf
    split_ifs at hf with hin
    · subst hin
      exact hv hlt hun f hf
    · exact h.identity i hlt hun f hf

/-- A frame in use becomes a page table. -/
theorem Regular.setTable (h : Regular m) (hu : Unlinked m j) (hj : j < PAGING_PAGES)
    (hz : m.phys j = zeroFrame) (hused : m.memMap j ≠ UNUSED) (d : Nat) :
    Regular (m.setTable d j) where
  tables := hu.setTable_tables h.tables hj d
  unlinked f hlt hf := by
    have hf : m.memMap f = UNUSED := hf
    refine ⟨(h.unlinked f hlt hf).ne_dir, fun e he ht => ?_⟩
    rw [setTable_tableOf hj, Function.update_apply] at ht
    split_ifs at ht
    · exact hused (Option.some.inj ht ▸ hf)
    · exact (h.unlinked f hlt hf).ne_table e he ht
  identity f hlt hf g hg := by
    have hf : m.memMap f = UNUSED := hf
    rw [frameOf, h.tables.setTable_pte hu hj hz d (lt_frames hlt)] at hg
    split_ifs at hg
    · cases hg
    · exact h.identity f hlt hf g hg

/-! ## The call -/

theorem frameAddr_eq_zero (hi : i < PAGING_PAGES) : frameAddr i = 0 ↔ i = 0 := by
  have hnr := mapNr_frameAddr (i := i) (lt_frames hi)
  constructor
  · intro e
    rw [e] at hnr
    exact hnr.symm
  · rintro rfl
    rfl


theorem createPageTable_absent {a p : Word} (habs : m.tableOf (mapNr a / 1024) = none) {k : Nat}
    (hr : getFreePage k m = some (p, m₁)) : createPageTable (k + 1) m a =
      some (if p = 0 then (-1, m₁) else (1, m₁.put 7 (mapNr a / 1024) (p ||| 7))) := by
  rw [createPageTable, tableEntry_absent habs, if_neg (by decide), hr, Option.map_some,
    ← store_tablePtr]

theorem createPageTable_none {a : Word} (habs : m.tableOf (mapNr a / 1024) = none)
    (hr : ∀ k, getFreePage k m = none) (k : Nat) : createPageTable k m a = none := by
  cases k with
  | zero => rw [createPageTable]
  | succ k =>
      rw [createPageTable, tableEntry_absent habs, if_neg (by decide), hr]
      rfl

/-- The page table that the special case asks for is that of the frame itself. -/
theorem spare_block (hlt : i < PAGING_PAGES) (hmod : i % 1024 = 1021) :
    i &&& 0x3FF = 0x3FD ∧ mapNr (frameAddr (i + 2)) / 1024 = i / 1024 := by
  unfold PAGING_PAGES at hlt
  constructor
  · show i &&& 2 ^ 10 - 1 = 0x3FD
    rw [Nat.and_two_pow_sub_one_eq_mod, hmod]
  · rw [mapNr_frameAddr (by omega)]
    omega

section
variable (hf : m.firstFree = some i) (hno : ¬ m.Covered i) (hmod : i % 1024 = 1021)
include hf hno hmod

/-- The special case, for a frame that has no page table. -/
theorem getFreePage_special {k : Nat} {p : Word}
    (hr : getFreePage k (m.setMap i 1) = some (p, m₁)) :
    getFreePage (k + 2) m = if p = 0 then some (0, m₁.setMap i 0)
      else (touch (k + 1) ((m₁.put 7 (i / 1024) (p ||| 7)).setMap i 0) i).map fun m =>
        (frameAddr i, m.alloc i) := by
  obtain ⟨h3, hblock⟩ := spare_block (firstFree_some hf).1 hmod
  have habs : (m.setMap i 1).tableOf (mapNr (frameAddr (i + 2)) / 1024) = none := by
    rw [hblock]
    exact not_not.mp hno
  rw [getFreePage, hf]
  show (if i &&& 0x3FF = 0x3FD then _ else _) = _
  rw [if_pos h3, createPageTable_absent habs hr, Option.bind_some, hblock]
  split_ifs <;> rfl

theorem getFreePage_special_none (hr : ∀ k, getFreePage k (m.setMap i 1) = none) (k : Nat) :
    getFreePage k m = none := by
  obtain ⟨h3, hblock⟩ := spare_block (firstFree_some hf).1 hmod
  have habs : (m.setMap i 1).tableOf (mapNr (frameAddr (i + 2)) / 1024) = none := by
    rw [hblock]
    exact not_not.mp hno
  cases k with
  | zero => rw [getFreePage]
  | succ k =>
      rw [getFreePage, hf]
      show (if i &&& 0x3FF = 0x3FD then _ else _) = _
      rw [if_pos h3, createPageTable_none habs hr, Option.bind_none]

end

end Mks.Mem
