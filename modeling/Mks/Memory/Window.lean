import Mks.Memory.Faults

set_option autoImplicit false

/-! # The kernel window

`Window hi m` says what stays true of the page directory and of the kernel window, the pages below
64MB, when the functions of `kernel/memory.c` are called in any order. Unlike `Paged` it allows page
tables for the window above 32MB, made by faults of the kernel or by calls of `create_page_table`.

`get_free_page` returns exactly if there is no free frame or the first one is `Covered`, that is,
there is a page table for its own address (`Window.getFreePage_returns`).
-/

namespace Mks.Mem

variable {m m' : Mem} {hi : Nat}

/-- There is a page table for the address of the frame. -/
def Covered (m : Mem) (f : Nat) : Prop := m.tableOf (f / 1024) ≠ none

instance (m : Mem) (f : Nat) : Decidable (m.Covered f) := inferInstanceAs (Decidable (_ ≠ none))

/-- Frames that are never given away: those of `setup_paging` and below, those after the main
memory, and the page tables. -/
def Taken (hi : Nat) (m : Mem) (f : Nat) : Prop :=
  f < 16 ∨ hi ≤ f ∧ f < PAGING_PAGES ∨ ∃ d < 1024, m.tableOf d = some f

/-- The main memory ends at frame `hi`. -/
structure Window (hi : Nat) (m : Mem) : Prop where
  kernelTable : ∀ d < 8, m.tableOf d = some (8 + d)
  kernelPage : ∀ n < 8192, m.frameOf n = some n
  /-- What the window maps, it maps to the frame with the same address. -/
  identity : ∀ n < 16384, ∀ f, m.frameOf n = some f → f = n
  table : ∀ d, 8 ≤ d → d < 1024 → ∀ t, m.tableOf d = some t → 16 ≤ t
  inj : ∀ d < 1024, ∀ d' < 1024, ∀ t, m.tableOf d = some t → m.tableOf d' = some t → d = d'
  /-- The kernel reaches the page tables. -/
  reached : ∀ d < 1024, ∀ t, m.tableOf d = some t → t < 16384 ∧ m.frameOf t = some t
  used : ∀ f, m.Taken hi f → m.memMap f ≠ UNUSED
  page : ∀ n < 1048576, ∀ f, m.frameOf n = some f → f < PAGING_PAGES ∧ m.Covered f
  /-- Where there is no page table for the window, the main memory is still free. -/
  untouched : ∀ f, 8192 ≤ f → f < PAGING_PAGES → ¬ m.Covered f → (m.memMap f = UNUSED ↔ f < hi)

theorem covered_of_frameOf {f g : Nat} (h : m.frameOf f = some g) : m.Covered f := by
  obtain ⟨t, ht⟩ := tableOf_of_frameOf h
  unfold Covered
  rw [ht]
  exact Option.some_ne_none t

theorem covered_congr (hT : m'.tableOf = m.tableOf) (f : Nat) : m'.Covered f ↔ m.Covered f := by
  unfold Covered
  rw [hT]

theorem Window.covered_low (h : Window hi m) {f : Nat} (hf : f < 8192) : m.Covered f :=
  covered_of_frameOf (h.kernelPage f hf)

theorem Window.tables (h : Window hi m) : Tables m where
  ne d hd t ht := by
    rcases Nat.lt_or_ge d 8 with h8 | h8
    · rw [h.kernelTable d h8] at ht
      have := Option.some.inj ht
      omega
    · have := h.table d h8 hd t ht
      omega
  inj := h.inj

/-- A free frame is no page table. -/
theorem Window.unlinked (h : Window hi m) {i : Nat} (hi : m.memMap i = UNUSED) : Unlinked m i where
  ne_dir := by
    rintro rfl
    exact h.used 7 (.inl (by decide)) hi
  ne_table d hd ht := h.used i (.inr (.inr ⟨d, hd, ht⟩)) hi

theorem Window.frame_ne_zero (h : Window hi m) {i : Nat} (hun : m.memMap i = UNUSED)
    (hlt : i < PAGING_PAGES) : 16 ≤ i ∧ frameAddr i ≠ 0 := by
  have h16 : 16 ≤ i := by
    by_contra hlow
    exact h.used i (.inl (by omega)) hun
  refine ⟨h16, fun e => ?_⟩
  have hnr := mapNr_frameAddr (i := i) (lt_frames hlt)
  rw [e] at hnr
  have hz : mapNr 0 = 0 := rfl
  omega

/-! ## The moves -/

/-- The page tables stay, and pages of the window only get their own frames. -/
theorem Window.change (h : Window hi m) (hT : m'.tableOf = m.tableOf)
    (hkept : ∀ n < 16384, m.frameOf n ≠ none → m'.frameOf n ≠ none)
    (hpage : ∀ n < 1048576, ∀ f, m'.frameOf n = some f → m.frameOf n = some f ∨
      (n < 16384 → f = n) ∧ f < PAGING_PAGES ∧ m.Covered f)
    (hused : ∀ f, m.Taken hi f → m'.memMap f ≠ UNUSED)
    (hfree : ∀ f, ¬ m.Covered f → m'.memMap f = m.memMap f) : Window hi m' := by
  have hid : ∀ n < 16384, ∀ f, m'.frameOf n = some f → f = n := by
    intro n hn f hf
    rcases hpage n (by omega) f hf with hf | ⟨hf, -⟩
    · exact h.identity n hn f hf
    · exact hf hn
  have hself : ∀ n < 16384, m.frameOf n ≠ none → m'.frameOf n = some n := by
    intro n hn hne
    obtain ⟨f, hf⟩ := Option.ne_none_iff_exists'.mp (hkept n hn hne)
    rw [hf, hid n hn f hf]
  constructor
  case kernelTable => exact fun d hd => hT ▸ h.kernelTable d hd
  case kernelPage =>
    intro n hn
    refine hself n (by omega) ?_
    rw [h.kernelPage n hn]
    exact Option.some_ne_none n
  case identity => exact hid
  case table => exact fun d h8 hd t ht => h.table d h8 hd t (hT ▸ ht)
  case inj => exact fun d hd d' hd' t ht ht' => h.inj d hd d' hd' t (hT ▸ ht) (hT ▸ ht')
  case reached =>
    intro d hd t ht
    obtain ⟨hlt, hf⟩ := h.reached d hd t (hT ▸ ht)
    refine ⟨hlt, hself t hlt ?_⟩
    rw [hf]
    exact Option.some_ne_none t
  case used =>
    intro f hf
    refine hused f ?_
    unfold Taken at hf ⊢
    rwa [hT] at hf
  case page =>
    intro n hn f hf
    rw [covered_congr hT]
    rcases hpage n hn f hf with hf | ⟨-, hf⟩
    · exact h.page n hn f hf
    · exact hf
  case untouched =>
    intro f hge hlt hno
    rw [covered_congr hT] at hno
    rw [hfree f hno]
    exact h.untouched f hge hlt hno

/-- A frame that is no page table is filled, and counters change. -/
theorem Window.fill (h : Window hi m) {i : Nat} {x : Nat → Word} {g : Nat → BitVec 8}
    (hu : Unlinked m i) (hused : ∀ f, m.Taken hi f → g f ≠ UNUSED)
    (hfree : ∀ f, ¬ m.Covered f → g f = m.memMap f) :
    Window hi ⟨g, Function.update m.phys i x⟩ := by
  refine h.change (hu.fill_tableOf rfl) (fun n hn hne => ?_) (fun n hn f hf => .inl ?_) hused hfree
  · rw [hu.fill_frameOf rfl (by omega)]
    exact hne
  · rwa [hu.fill_frameOf rfl hn] at hf

/-- A page gets an entry. -/
theorem Window.putPte (h : Window hi m) {n f : Nat} {v : Word} (hn : n < 1048576)
    (ht : m.tableOf (n / 1024) ≠ none) (hv : entryFrame v = some f) (hself : n < 16384 → f = n)
    (hlt : f < PAGING_PAGES) (hcov : m.Covered f) : Window hi (m.putPte n v) := by
  obtain ⟨t, ht⟩ := Option.ne_none_iff_exists'.mp ht
  -- only page `n` changes
  refine h.change (h.tables.tableOf_putPte hn ht v) (fun a ha hne => ?_) (fun a ha g hg => ?_)
    (fun g hg => h.used g hg) fun _ _ => rfl
  · rw [h.tables.frameOf_putPte hn ht v (by omega)]
    split_ifs
    · rw [hv]
      exact Option.some_ne_none f
    · exact hne
  · rw [h.tables.frameOf_putPte hn ht v ha] at hg
    split_ifs at hg with han
    · rw [hv] at hg
      obtain rfl := Option.some.inj hg
      exact .inr ⟨fun ha' => (hself (by omega)).trans han.symm, hlt, hcov⟩
    · exact .inl hg

/-- The counter of a frame changes. -/
theorem Window.setMap (h : Window hi m) {f : Nat} {c : BitVec 8}
    (hc : m.Taken hi f → c ≠ UNUSED) (hcov : m.Covered f) : Window hi (m.setMap f c) := by
  refine h.change rfl (fun _ _ hne => hne) (fun _ _ _ hf => .inl hf) (fun g hg => ?_)
    fun g hno => ?_
  · show Function.update m.memMap f c g ≠ UNUSED
    by_cases hgf : g = f
    · subst hgf
      rw [Function.update_self]
      exact hc hg
    · rw [Function.update_of_ne hgf]
      exact h.used g hg
  · have hgf : g ≠ f := fun e => hno (e ▸ hcov)
    exact Function.update_of_ne hgf _ _

/-! ## A frame for the kernel -/

/-- `do_no_page` for a page of the window, when there is a page table. -/
def mapSelf (m : Mem) (a : Word) : Mem := m.putPte (mapNr a) ((a &&& 0xFFFFF000) ||| 7)

/-- The first access of the kernel to a frame whose address has a page table. -/
def reach (m : Mem) (i : Nat) : Mem :=
  if (m.frameOf i).isSome then m else m.mapSelf (frameAddr i)

/-- What `get_free_page` does when it returns frame `i`. -/
def grab (m : Mem) (i : Nat) : Mem := (m.reach i).alloc i

theorem entryFrame_self (a : Word) : entryFrame ((a &&& 0xFFFFF000) ||| 7) = some (mapNr a) := by
  rw [entryFrame, present_or_seven, if_pos rfl, mapNr_or_seven, mapNr_mask]

theorem Window.mapSelf (h : Window hi m) {a : Word} (ha : mapNr a < 16384)
    (ht : m.tableOf (mapNr a / 1024) ≠ none) : Window hi (m.mapSelf a) :=
  h.putPte (mapNr_lt a) ht (entryFrame_self a) (fun _ => rfl) ha ht

section
variable {i : Nat}

theorem Window.reach (h : Window hi m) (hlt : i < PAGING_PAGES) (hcov : m.Covered i) :
    Window hi (m.reach i) := by
  have hnr := mapNr_frameAddr (i := i) (lt_frames hlt)
  unfold Mem.reach
  split_ifs
  · exact h
  · refine h.mapSelf (a := frameAddr i) ?_ ?_
    · rw [hnr]
      exact hlt
    · rw [hnr]
      exact hcov

@[simp] theorem reach_memMap (m : Mem) (i : Nat) : (m.reach i).memMap = m.memMap := by
  unfold Mem.reach
  split_ifs <;> rfl

theorem grab_memMap (m : Mem) (i : Nat) :
    (m.grab i).memMap = Function.update m.memMap i 1 := by
  rw [grab, alloc_memMap, reach_memMap]

theorem grab_phys (m : Mem) (i : Nat) :
    (m.grab i).phys = Function.update (m.reach i).phys i zeroFrame := rfl

/-- Only a page table changes, if anything does. -/
theorem Tables.reach_dir (h : Tables m) (hlt : i < PAGING_PAGES) (hcov : m.Covered i) :
    (m.reach i).phys 7 = m.phys 7 := by
  have hnr := mapNr_frameAddr (i := i) (lt_frames hlt)
  unfold Mem.reach
  split_ifs
  · rfl
  · obtain ⟨t, ht⟩ := Option.ne_none_iff_exists'.mp hcov
    exact h.dir_putPte (mapNr_lt _) (hnr.symm ▸ ht) _

theorem Tables.reach_tableOf (h : Tables m) (hlt : i < PAGING_PAGES) (hcov : m.Covered i) :
    (m.reach i).tableOf = m.tableOf := tableOf_congr (h.reach_dir hlt hcov)

theorem Tables.reach_pte (h : Tables m) (hlt : i < PAGING_PAGES) (hcov : m.Covered i) {n : Nat}
    (hn : n < 1048576) (hni : n ≠ i) : (m.reach i).pte n = m.pte n := by
  have hnr := mapNr_frameAddr (i := i) (lt_frames hlt)
  unfold Mem.reach
  split_ifs
  · rfl
  · obtain ⟨t, ht⟩ := Option.ne_none_iff_exists'.mp hcov
    rw [Mem.mapSelf, h.pte_putPte (mapNr_lt _) (hnr.symm ▸ ht) _ hn, hnr, if_neg hni]

theorem Tables.reach_frameOf (h : Tables m) (hid : ∀ f, m.frameOf i = some f → f = i)
    (hlt : i < PAGING_PAGES) (hcov : m.Covered i) {n : Nat} (hn : n < 1048576) :
    (m.reach i).frameOf n = if n = i then some i else m.frameOf n := by
  have hnr := mapNr_frameAddr (i := i) (lt_frames hlt)
  split_ifs with hni
  · subst hni
    unfold Mem.reach
    split_ifs with hsome
    · obtain ⟨f, hf⟩ := Option.isSome_iff_exists.mp hsome
      rw [hf, hid f hf]
    · obtain ⟨t, ht⟩ := Option.ne_none_iff_exists'.mp hcov
      rw [Mem.mapSelf, h.frameOf_putPte (mapNr_lt _) (hnr.symm ▸ ht) _ hn, hnr, if_pos rfl,
        entryFrame_self, hnr]
  · rw [frameOf, h.reach_pte hlt hcov hn hni, frameOf]

/-- The cleared frame is no page table. -/
theorem Unlinked.reach (hu : Unlinked m i) (h : Tables m) (hlt : i < PAGING_PAGES)
    (hcov : m.Covered i) : Unlinked (m.reach i) i :=
  hu.congr (h.reach_tableOf hlt hcov)

theorem Unlinked.grab_dir (hu : Unlinked m i) (h : Tables m) (hlt : i < PAGING_PAGES)
    (hcov : m.Covered i) : (m.grab i).phys 7 = m.phys 7 :=
  calc (m.grab i).phys 7 = (m.reach i).phys 7 := (hu.reach h hlt hcov).fill_dir (grab_phys m i)
    _ = m.phys 7 := h.reach_dir hlt hcov

theorem Unlinked.grab_tableOf (hu : Unlinked m i) (h : Tables m) (hlt : i < PAGING_PAGES)
    (hcov : m.Covered i) : (m.grab i).tableOf = m.tableOf :=
  tableOf_congr (hu.grab_dir h hlt hcov)

theorem Unlinked.grab_frameOf (hu : Unlinked m i) (h : Tables m)
    (hid : ∀ f, m.frameOf i = some f → f = i) (hlt : i < PAGING_PAGES) (hcov : m.Covered i)
    {n : Nat} (hn : n < 1048576) :
    (m.grab i).frameOf n = if n = i then some i else m.frameOf n := by
  rw [(hu.reach h hlt hcov).fill_frameOf (grab_phys m i) hn, h.reach_frameOf hid hlt hcov hn]

theorem Window.reach_dir (h : Window hi m) (hlt : i < PAGING_PAGES) (hcov : m.Covered i) :
    (m.reach i).phys 7 = m.phys 7 := h.tables.reach_dir hlt hcov

theorem Window.reach_frameOf (h : Window hi m) (hlt : i < PAGING_PAGES) (hcov : m.Covered i)
    {n : Nat} (hn : n < 1048576) :
    (m.reach i).frameOf n = if n = i then some i else m.frameOf n :=
  h.tables.reach_frameOf (h.identity i hlt) hlt hcov hn

theorem Window.reach_unlinked (h : Window hi m) (hun : m.memMap i = UNUSED)
    (hlt : i < PAGING_PAGES) (hcov : m.Covered i) : Unlinked (m.reach i) i :=
  (h.unlinked hun).reach h.tables hlt hcov

theorem Window.grab_tableOf (h : Window hi m) (hun : m.memMap i = UNUSED) (hlt : i < PAGING_PAGES)
    (hcov : m.Covered i) : (m.grab i).tableOf = m.tableOf :=
  (h.unlinked hun).grab_tableOf h.tables hlt hcov

theorem Window.grab_dir (h : Window hi m) (hun : m.memMap i = UNUSED) (hlt : i < PAGING_PAGES)
    (hcov : m.Covered i) : (m.grab i).phys 7 = m.phys 7 :=
  (h.unlinked hun).grab_dir h.tables hlt hcov

theorem Window.grab_frameOf (h : Window hi m) (hun : m.memMap i = UNUSED) (hlt : i < PAGING_PAGES)
    (hcov : m.Covered i) {n : Nat} (hn : n < 1048576) :
    (m.grab i).frameOf n = if n = i then some i else m.frameOf n :=
  (h.unlinked hun).grab_frameOf h.tables (h.identity i hlt) hlt hcov hn

theorem Window.grab (h : Window hi m) (hun : m.memMap i = UNUSED) (hlt : i < PAGING_PAGES)
    (hcov : m.Covered i) : Window hi (m.grab i) := by
  have hr := h.reach hlt hcov
  have hcov' : (m.reach i).Covered i :=
    (covered_congr (tableOf_congr (h.reach_dir hlt hcov)) i).mpr hcov
  refine hr.fill (h.reach_unlinked hun hlt hcov) (fun f hf => ?_) fun f hno => ?_
  · by_cases hfi : f = i
    · subst hfi
      show Function.update (m.reach f).memMap f 1 f ≠ UNUSED
      rw [Function.update_self]
      decide
    · exact (Function.update_of_ne hfi _ _).trans_ne (hr.used f hf)
  · have hfi : f ≠ i := fun e => hno (e ▸ hcov')
    exact Function.update_of_ne hfi _ _

end

/-! ## A page table -/

/-- `create_page_table` with frame `i`. -/
def addTable (m : Mem) (d i : Nat) : Mem := (m.grab i).put 7 d (frameAddr i ||| 7)

section
variable {d i : Nat}

theorem addTable_memMap (m : Mem) (d i : Nat) :
    (m.addTable d i).memMap = Function.update m.memMap i 1 := grab_memMap m i

theorem Window.addTable_tableOf (h : Window hi m) (hun : m.memMap i = UNUSED)
    (hlt : i < PAGING_PAGES) (hcov : m.Covered i) (d : Nat) :
    (m.addTable d i).tableOf = Function.update m.tableOf d (some i) := by
  have hu := h.reach_unlinked hun hlt hcov
  rw [addTable, hu.install_tableOf (grab_phys m i) (lt_frames hlt),
    tableOf_congr (h.reach_dir hlt hcov)]

theorem Window.addTable_frameOf (h : Window hi m) (hun : m.memMap i = UNUSED)
    (hlt : i < PAGING_PAGES) (hcov : m.Covered i) (habs : m.tableOf d = none) {n : Nat}
    (hn : n < 1048576) : (m.addTable d i).frameOf n = if n = i then some i else m.frameOf n := by
  have hu := h.reach_unlinked hun hlt hcov
  have habs' : (m.reach i).tableOf d = none := by
    rw [tableOf_congr (h.reach_dir hlt hcov)]
    exact habs
  rw [← h.reach_frameOf hlt hcov hn, frameOf, frameOf]
  congr 1
  exact hu.install_pte (h.reach hlt hcov).tables (grab_phys m i) (fun _ => rfl)
    (lt_frames hlt) habs' hn

/-- The new table apart, the directory is the old one. -/
theorem Window.addTable_old (h : Window hi m) (hun : m.memMap i = UNUSED) (hlt : i < PAGING_PAGES)
    (hcov : m.Covered i) {e t : Nat} (ht : (m.addTable d i).tableOf e = some t) :
    e = d ∧ t = i ∨ m.tableOf e = some t := by
  rw [h.addTable_tableOf hun hlt hcov] at ht
  by_cases hed : e = d
  · subst hed
    rw [Function.update_self] at ht
    exact .inl ⟨rfl, (Option.some.inj ht).symm⟩
  · rw [Function.update_of_ne hed] at ht
    exact .inr ht

theorem Window.addTable_covered (h : Window hi m) (hun : m.memMap i = UNUSED)
    (hlt : i < PAGING_PAGES) (hcov : m.Covered i) {f : Nat} (hf : m.Covered f) :
    (m.addTable d i).Covered f := by
  unfold Covered
  rw [h.addTable_tableOf hun hlt hcov]
  by_cases hfd : f / 1024 = d
  · rw [hfd, Function.update_self]
    exact Option.some_ne_none i
  · rwa [Function.update_of_ne hfd]

theorem Window.addTable (h : Window hi m) (hun : m.memMap i = UNUSED) (hlt : i < PAGING_PAGES)
    (hcov : m.Covered i) (hd : d < 1024) (habs : m.tableOf d = none) :
    Window hi (m.addTable d i) := by
  have hg := h.grab hun hlt hcov
  have hgT := h.grab_tableOf hun hlt hcov
  have hF : ∀ n < 1048576, (m.addTable d i).frameOf n = (m.grab i).frameOf n := by
    intro n hn
    calc (m.addTable d i).frameOf n = if n = i then some i else m.frameOf n :=
          h.addTable_frameOf hun hlt hcov habs hn
      _ = (m.grab i).frameOf n := (h.grab_frameOf hun hlt hcov hn).symm
  have hd8 : 8 ≤ d := by
    by_contra hlow
    rw [h.kernelTable d (by omega)] at habs
    cases habs
  have hlt' : i < 16384 := hlt
  constructor
  case kernelTable =>
    intro e he
    rw [h.addTable_tableOf hun hlt hcov, Function.update_of_ne (by omega)]
    exact h.kernelTable e he
  case kernelPage => exact fun n hn => (hF n (by omega)).trans (hg.kernelPage n hn)
  case identity => exact fun n hn f hf => hg.identity n hn f (hF n (by omega) ▸ hf)
  case table =>
    intro e he he' t ht
    rcases h.addTable_old hun hlt hcov ht with ⟨-, rfl⟩ | ht
    · exact (h.frame_ne_zero hun hlt).1
    · exact h.table e he he' t ht
  case inj =>
    exact ((h.reach_unlinked hun hlt hcov).install_tables (h.reach hlt hcov).tables (grab_phys m i)
      (by omega) d).inj
  case reached =>
    intro e he t ht
    rcases h.addTable_old hun hlt hcov ht with ⟨-, rfl⟩ | ht
    · refine ⟨hlt', ?_⟩
      rw [h.addTable_frameOf hun hlt hcov habs (by omega), if_pos rfl]
    · obtain ⟨hlt₁, hf⟩ := hg.reached e he t (hgT ▸ ht)
      exact ⟨hlt₁, (hF t (by omega)).trans hf⟩
  case used =>
    rintro f (hf | hf | ⟨e, he, ht⟩)
    · exact hg.used f (.inl hf)
    · exact hg.used f (.inr (.inl hf))
    · rcases h.addTable_old hun hlt hcov ht with ⟨-, rfl⟩ | ht
      · rw [addTable_memMap, Function.update_self]
        decide
      · exact hg.used f (.inr (.inr ⟨e, he, hgT ▸ ht⟩))
  case page =>
    intro n hn f hf
    obtain ⟨hlt₁, hc⟩ := hg.page n hn f (hF n hn ▸ hf)
    exact ⟨hlt₁, h.addTable_covered hun hlt hcov ((covered_congr hgT f).mp hc)⟩
  case untouched =>
    -- frame `i` itself is covered, so it is none of these
    intro f hge hlt₁ hnc
    refine hg.untouched f hge hlt₁ fun hc => hnc ?_
    exact h.addTable_covered hun hlt hcov ((covered_congr hgT f).mp hc)

end

end Mks.Mem
