import Mks.Memory.SharePage

set_option autoImplicit false

/-! # Reference counts

In a run of the four functions that change mappings, `mem_map` counts the references to every frame
of the main memory, unless a page is mapped anew while it maps such a frame, or a counter
overflows.
-/

namespace Mks.Mem

inductive MapCall
  | doNoPage (a : Word)
  | doWpPage (a : Word)
  | sharePage (fromAddr toAddr : Word)
  | createPageTable (a : Word)
  deriving DecidableEq

namespace MapCall

def Above : MapCall → Prop
  | doNoPage a | doWpPage a | createPageTable a => a ≥ WINDOW
  | sharePage fromAddr toAddr => fromAddr ≥ WINDOW ∧ toAddr ≥ WINDOW

def exec (k : Nat) (m : Mem) : MapCall → Option Mem
  | doNoPage a => m.doNoPage k a
  | doWpPage a => m.doWpPage k a
  | sharePage fromAddr toAddr => m.sharePage k fromAddr toAddr
  | createPageTable a => (m.createPageTable k a).map Prod.snd

/-- `do_wp_page` gets a page with a page table. The page that gets a new frame, by `do_no_page` if
there is one or by `share_page` from another page, has none of the main memory, and the counter can
go up. -/
def Tracked (M : MainMemory) (m : Mem) : MapCall → Prop
  | doNoPage a => m.firstFree = none ∨ ∀ f, m.frameOf (mapNr a) = some f → ¬ M.Has f
  | doWpPage a => m.tableOf (mapNr a / 1024) ≠ none
  | sharePage fromAddr toAddr => mapNr fromAddr ≠ mapNr toAddr ∧
      (∀ f, m.frameOf (mapNr toAddr) = some f → ¬ M.Has f) ∧ m.NoWrap (mapNr fromAddr)
  | createPageTable _ => True

end MapCall

def MapStep (m : Mem) (c : MapCall) (m' : Mem) : Prop := c.Above ∧ ∃ k, c.exec k m = some m'

variable {M : MainMemory} {m m₀ m₁ m' : Mem} {d f i n k : Nat} {a b : Word}

/-- Page `n` or entry `d` of the page directory uses the frame. -/
def Referenced (m : Mem) (f : Nat) : Prop :=
  (∃ n ∈ pages, m.frameOf n = some f) ∨ ∃ d < 1024, m.tableOf d = some f

/-- `mem_map` counts the references. -/
structure Counted (M : MainMemory) (m : Mem) : Prop where
  exact : ∀ f, M.Has f → (m.memMap f).toNat =
    RefCount.count pages m.frameOf f + RefCount.count (Finset.range 1024) m.tableOf f
  unused : ∀ f, M.Has f → (m.memMap f = UNUSED ↔ ¬ m.Referenced f)
  /-- A frame in use, and so every frame that has been in use, will be given away again. -/
  below : ∀ f, M.Has f → m.Referenced f → f < 8192
  allocatable : ∀ f < 8192, M.Has f → ¬ m.Referenced f → (∀ g < f, m.memMap g ≠ UNUSED) →
    ∀ k, getFreePage (k + 2) m = some (frameAddr f, m.alloc f)

theorem not_referenced : ¬ m.Referenced f ↔ RefCount.count pages m.frameOf f = 0 ∧
    RefCount.count (Finset.range 1024) m.tableOf f = 0 := by
  rw [RefCount.count_eq_zero, RefCount.count_eq_zero, Referenced]
  simp only [Finset.mem_range, not_or, not_exists, not_and]

/-! ## The invariant -/

/-- The kernel reaches the frames below 32MB and no others, and the counters of the main memory are
exact. An entry that is not present holds the address 0, so that `do_wp_page` takes frame 0 for the
frame of the page. -/
structure Exact (M : MainMemory) (m : Mem) : Prop where
  tables : Tables m
  kernelPage : ∀ n < 8192, m.frameOf n = some n
  gap : ∀ d, 8 ≤ d → d < 16 → m.tableOf d = none
  kernel : ∀ f < PAGING_PAGES, ¬ M.Has f → m.memMap f ≠ UNUSED
  high : ∀ f, 8192 ≤ f → M.Has f → m.memMap f = UNUSED
  count : ∀ f, M.Has f → (m.memMap f).toNat =
    RefCount.count pages m.frameOf f + RefCount.count (Finset.range 1024) m.tableOf f
  blank : ∀ n ∈ pages, m.frameOf n = none → mapNr (m.pte n) = 0

theorem toNat_eq_zero {c : BitVec 8} : c.toNat = 0 ↔ c = UNUSED := by
  constructor
  · exact fun h => BitVec.eq_of_toNat_eq h
  · rintro rfl
    rfl

theorem has_ne_zero (hf : M.Has f) : f ≠ 0 := by
  have := Paged.has_ne M hf
  omega

theorem Exact.unused_iff (h : Exact M m) (hf : M.Has f) :
    m.memMap f = UNUSED ↔ ¬ m.Referenced f := by
  rw [not_referenced, ← toNat_eq_zero, h.count f hf, Nat.add_eq_zero_iff]

theorem Exact.below (h : Exact M m) (hf : M.Has f) (hr : m.Referenced f) : f < 8192 := by
  by_contra hge
  exact (h.unused_iff hf).mp (h.high f (by omega) hf) hr

/-- A free frame belongs to the main memory, and nothing uses it. -/
theorem Exact.free (h : Exact M m) (hlt : i < PAGING_PAGES) (hun : m.memMap i = UNUSED) :
    M.Has i ∧ ¬ m.Referenced i := by
  have hi : M.Has i := by
    by_contra hno
    exact h.kernel i hlt hno hun
  exact ⟨hi, (h.unused_iff hi).mp hun⟩

theorem Exact.unlinked (h : Exact M m) (hlt : i < PAGING_PAGES) (hun : m.memMap i = UNUSED) :
    Unlinked m i where
  ne_dir := by
    have := Paged.has_ne M (h.free hlt hun).1
    omega
  ne_table d hd ht := (h.free hlt hun).2 (.inr ⟨d, hd, ht⟩)

theorem Exact.regular (h : Exact M m) : Regular m where
  tables := h.tables
  unlinked _ hlt hun := h.unlinked hlt hun
  identity i hlt _ f hf := by
    rcases Nat.lt_or_ge i 8192 with hlow | hhigh
    · exact Option.some.inj (hf.symm.trans (h.kernelPage i hlow))
    · have hlt : i < 16384 := hlt
      rw [frameOf_none (h.gap (i / 1024) (by omega) (by omega))] at hf
      cases hf

/-! ## The frames that the calls take -/

/-- The frames above 32MB are not given away: the first of them comes first, and has no page
table. -/
theorem Exact.reaches (h : Exact M m) (hf : m.firstFree = some i)
    (hc : m.Covered i ∨ i % 1024 = 1021) : Free m i := by
  obtain ⟨hlt, hun, hlow⟩ := firstFree_some hf
  refine ⟨?_, hun⟩
  by_contra hge
  have hi := (h.free hlt hun).1
  have hle := M.lo_le
  have h8192 : m.memMap 8192 = UNUSED :=
    h.high 8192 le_rfl ⟨hle, lt_of_le_of_lt (by omega) hi.2⟩
  have hi : i = 8192 := by
    by_contra hne
    exact hlow 8192 (by omega) h8192
  rcases hc with hcov | hmod
  · exact hcov (h.gap (i / 1024) (by omega) (by omega))
  · omega

theorem Exact.allocates {js : List Nat} (h : Exact M m) (ha : Allocates m i js m') :
    Free m i ∧ m' = m.alloc i := by
  cases ha with
  | covered hf hcov =>
      have hi := h.reaches hf (.inl hcov)
      refine ⟨hi, ?_⟩
      rw [Mem.grab, Mem.reach, h.kernelPage i hi.lt]
      rfl
  | table hf hno hmod _ =>
      have hi := h.reaches hf (.inr hmod)
      exact absurd (covered_of_frameOf (h.kernelPage i hi.lt)) hno

theorem Exact.free_ne_zero (h : Exact M m) (hi : Free m i) : i ≠ 0 :=
  has_ne_zero (h.free hi.lt_pages hi.unused).1

theorem Exact.obtains (h : Exact M m) (ho : Obtains m i m') : Free m i ∧ m' = m.alloc i := by
  cases ho with
  | now ha _ => exact h.allocates ha
  | later h0 _ => exact absurd rfl (h.free_ne_zero (h.allocates h0).1)

theorem Exact.gives {p : Word} (h : Exact M m) (hg : Gives m p m') :
    p = 0 ∧ m' = m ∨ ∃ i, Free m i ∧ p = frameAddr i ∧ p ≠ 0 ∧ m' = m.alloc i := by
  cases hg with
  | noFrame _ => exact .inl ⟨rfl, rfl⟩
  | @frame m' i js ha =>
      obtain ⟨hi, rfl⟩ := h.allocates ha
      refine .inr ⟨i, hi, rfl, ?_, rfl⟩
      exact (frameAddr_eq_zero hi.lt_pages).not.mpr (h.free_ne_zero hi)

theorem Exact.newTable (h : Exact M m) (hi : Free m i) (hd : 16 ≤ d) (hd' : d < 1024)
    (habs : m.tableOf d = none) : Exact M (m.newTable d i) := by
  have hlt := hi.lt
  obtain ⟨hmain, hno⟩ := h.free hi.lt_pages hi.unused
  have hu := h.unlinked hi.lt_pages hi.unused
  have hT : (m.newTable d i).tableOf = Function.update m.tableOf d (some i) :=
    hu.install_tableOf (alloc_phys i) (by omega) d
  have hpte : ∀ n < 1048576, (m.newTable d i).pte n = m.pte n := fun n hn =>
    hu.install_pte h.tables (alloc_phys i) (fun _ => rfl) (by omega) habs hn
  have hframe : ∀ n < 1048576, (m.newTable d i).frameOf n = m.frameOf n := fun n hn => by
    rw [frameOf, hpte n hn, frameOf]
  have hmap : ∀ f, (m.newTable d i).memMap f = Function.update m.memMap i 1 f := fun f => rfl
  constructor
  case tables => exact hu.install_tables h.tables (alloc_phys i) (by omega) d
  case kernelPage => exact fun n hn => (hframe n (by omega)).trans (h.kernelPage n hn)
  case gap =>
    intro e he he'
    rw [hT, Function.update_of_ne (by omega)]
    exact h.gap e he he'
  case kernel =>
    intro f hlt hf
    have hfi : f ≠ i := by
      rintro rfl
      exact hf hmain
    rw [hmap, Function.update_of_ne hfi]
    exact h.kernel f hlt hf
  case high =>
    intro f hge hf
    rw [hmap, Function.update_of_ne (by omega)]
    exact h.high f hge hf
  case count =>
    intro f hf
    have hold := h.count f hf
    have hpages := RefCount.count_congr (fun n hn => hframe n (mem_pages.mp hn).2) f
    have htables := RefCount.count_update m.tableOf (Finset.mem_range.mpr hd') (some i) f
    rw [habs, if_neg (Option.some_ne_none f).symm] at htables
    rw [hmap, hpages, hT, Function.update_apply]
    by_cases hfi : f = i
    · subst hfi
      obtain ⟨hp, ht⟩ := not_referenced.mp hno
      rw [if_pos rfl] at htables ⊢
      show 1 = _
      omega
    · rw [if_neg fun e => hfi (Option.some.inj e).symm] at htables
      rw [if_neg hfi]
      omega
  case blank =>
    intro n hn hnone
    have hn' := (mem_pages.mp hn).2
    rw [hpte n hn']
    exact h.blank n hn ((hframe n hn').symm.trans hnone)

/-- There is a page table for a block of pages of processes. -/
theorem Exact.tableMade (h : Exact M m) (hd : 16 ≤ d) (hd' : d < 1024) (hT : TableMade d m m') :
    Exact M m' ∧ m'.tableOf d ≠ none ∧ (∀ n ∈ pages, m'.frameOf n = m.frameOf n) ∧
      ∀ f, m.Referenced f → m'.memMap f = m.memMap f := by
  refine ⟨?_, hT.table h.regular, fun n hn => ?_, fun f hf => ?_⟩
  · cases hT with
    | here _ => exact h
    | made habs ho =>
        obtain ⟨hi, rfl⟩ := h.obtains ho
        exact h.newTable hi hd hd' habs
  · have hn' := mem_pages.mp hn
    rw [frameOf, hT.pte_process h.regular hn'.2 hn'.1, frameOf]
  · cases hT with
    | here _ => rfl
    | @made m₁ i habs ho =>
        obtain ⟨hi, rfl⟩ := h.obtains ho
        have hfi : f ≠ i := by
          rintro rfl
          exact (h.free hi.lt_pages hi.unused).2 hf
        exact Function.update_of_ne hfi _ _

/-! ## A page with another entry -/

/-- **Page `n` gets the entry `v`**, and the counters follow. -/
theorem Exact.remap (h : Exact M m) (v : Word) (hn : n ∈ pages) (hT : m'.tableOf = m.tableOf)
    (hpte : ∀ c < 1048576, m'.pte c = if c = n then v else m.pte c)
    (hv : entryFrame v = none → mapNr v = 0)
    (hlow : ∀ f, entryFrame v = some f → M.Has f → f < 8192)
    (hkernel : ∀ f < PAGING_PAGES, ¬ M.Has f → m.memMap f ≠ UNUSED → m'.memMap f ≠ UNUSED)
    (hcount : ∀ f, M.Has f → (m'.memMap f).toNat + (if m.frameOf n = some f then 1 else 0)
      = (m.memMap f).toNat + if entryFrame v = some f then 1 else 0) : Exact M m' := by
  have hn' := mem_pages.mp hn
  have hframe : ∀ c < 1048576, m'.frameOf c = if c = n then entryFrame v else m.frameOf c := by
    intro c hc
    rw [frameOf, hpte c hc]
    split_ifs <;> rfl
  constructor
  case tables => exact h.tables.congr hT
  case kernelPage =>
    intro c hc
    rw [hframe c (by omega), if_neg (by omega)]
    exact h.kernelPage c hc
  case gap => exact hT ▸ h.gap
  case kernel => exact fun f hlt hf => hkernel f hlt hf (h.kernel f hlt hf)
  case high =>
    intro f hge hf
    have hold := toNat_eq_zero.mpr (h.high f hge hf)
    have hnew := hcount f hf
    rw [hold, if_neg (c := entryFrame v = some f) fun e => absurd (hlow f e hf) (by omega)] at hnew
    exact toNat_eq_zero.mp (by omega)
  case count =>
    intro f hf
    have hold := h.count f hf
    have hnew := hcount f hf
    have hpages : RefCount.count pages m'.frameOf f
        = RefCount.count pages (Function.update m.frameOf n (entryFrame v)) f := by
      refine RefCount.count_congr (fun c hc => ?_) f
      rw [hframe c (mem_pages.mp hc).2, Function.update_apply]
    have hupdate := RefCount.count_update m.frameOf hn (entryFrame v) f
    rw [hT, hpages]
    split_ifs at hnew hupdate <;> omega
  case blank =>
    intro c hc hno
    have hc' := (mem_pages.mp hc).2
    rw [hframe c hc'] at hno
    rw [hpte c hc']
    split_ifs at hno ⊢
    · exact hv hno
    · exact h.blank c hc hno

theorem Exact.newPage_frameOf (h : Exact M m) (hn : n ∈ pages) (ht : m.tableOf (n / 1024) ≠ none)
    (hi : Free m i) {c : Nat} (hc : c < 1048576) :
    (m.newPage n i).frameOf c = if c = n then some i else m.frameOf c := by
  have hlt := hi.lt
  have hu := h.unlinked hi.lt_pages hi.unused
  have hT : (m.alloc i).tableOf = m.tableOf := hu.fill_tableOf (alloc_phys i)
  obtain ⟨t, ht⟩ := Option.ne_none_iff_exists'.mp ht
  rw [Mem.newPage, (h.tables.congr hT).frameOf_putPte (mem_pages.mp hn).2
    ((congrFun hT _).trans ht) _ hc, entryFrame_frameAddr (by omega),
    hu.fill_frameOf (alloc_phys i) hc]

/-- The frame in the entry is that of the page, or frame 0. -/
theorem Exact.old_ne (h : Exact M m) (hn : n ∈ pages) (hi : Free m i) : mapNr (m.pte n) ≠ i := by
  obtain ⟨-, hno⟩ := h.free hi.lt_pages hi.unused
  intro he
  cases hf : m.frameOf n with
  | none => exact h.free_ne_zero hi (he.symm.trans (h.blank n hn hf))
  | some f =>
      obtain rfl := (entryFrame_some hf).2.symm.trans he
      exact hno (.inl ⟨n, hn, hf⟩)

section
variable (h : Exact M m) (hn : n ∈ pages) (ht : m.tableOf (n / 1024) ≠ none)
include h hn ht

/-- The entry still has its frame. -/
theorem Exact.sameFrame {v : Word} (hv : entryFrame v = m.frameOf n)
    (hz : mapNr v = mapNr (m.pte n)) : Exact M (m.putPte n v) := by
  have hn' := mem_pages.mp hn
  obtain ⟨t, ht⟩ := Option.ne_none_iff_exists'.mp ht
  refine h.remap v hn (h.tables.tableOf_putPte hn'.2 ht v) (fun c => h.tables.pte_putPte hn'.2 ht v)
    (fun hno => ?_) (fun f hf hm => ?_) (fun f _ _ => id) fun f _ => ?_
  · rw [hz]
    exact h.blank n hn (hv.symm.trans hno)
  · exact h.below hm (.inl ⟨n, hn, hv.symm.trans hf⟩)
  · rw [hv]
    rfl

/-- The page gets a free frame. -/
theorem Exact.fill {x : Nat → Word} (hi : Free m i) (hp : m₁.phys = Function.update m.phys i x)
    (hone : m₁.memMap i = 1)
    (hkernel : ∀ f < PAGING_PAGES, ¬ M.Has f → m.memMap f ≠ UNUSED → m₁.memMap f ≠ UNUSED)
    (hcount : ∀ f ≠ i, M.Has f →
      (m₁.memMap f).toNat + (if m.frameOf n = some f then 1 else 0) = (m.memMap f).toNat) :
    Exact M (m₁.putPte n (frameAddr i ||| 7)) := by
  have hn' := mem_pages.mp hn
  have hlt := hi.lt
  obtain ⟨-, hno⟩ := h.free hi.lt_pages hi.unused
  have hu := h.unlinked hi.lt_pages hi.unused
  have hT₁ := hu.fill_tableOf hp
  have htables := h.tables.congr hT₁
  obtain ⟨t, ht⟩ := Option.ne_none_iff_exists'.mp ht
  have ht₁ : m₁.tableOf (n / 1024) = some t := (congrFun hT₁ _).trans ht
  have hv : entryFrame (frameAddr i ||| 7) = some i := entryFrame_frameAddr (by omega)
  refine h.remap (frameAddr i ||| 7) hn ((htables.tableOf_putPte hn'.2 ht₁ _).trans hT₁)
    (fun c hc => ?_) (fun hno => ?_) (fun f hf _ => ?_) hkernel fun f hf => ?_
  · rw [htables.pte_putPte hn'.2 ht₁ _ hc, hu.fill_pte hp hc]
  · rw [hv] at hno
    cases hno
  · rw [hv] at hf
    exact Option.some.inj hf ▸ hlt
  · rw [hv, putPte_memMap]
    by_cases hfi : f = i
    · subst hfi
      rw [hone, hi.unused, if_neg fun e => hno (.inl ⟨n, hn, e⟩), if_pos rfl]
      rfl
    · rw [hcount f hfi hf, if_neg fun e => hfi (Option.some.inj e).symm, Nat.add_zero]

theorem Exact.newPage (hi : Free m i) (hold : ∀ f, m.frameOf n = some f → ¬ M.Has f) :
    Exact M (m.newPage n i) := by
  refine h.fill hn ht hi (alloc_phys i) (Function.update_self i 1 m.memMap) (fun f _ _ hf => ?_)
    fun f hfi hf => ?_
  · have hfi : f ≠ i := by
      rintro rfl
      exact hf hi.unused
    rw [alloc_memMap, Function.update_of_ne hfi]
    exact hf
  · rw [if_neg fun e => hold f e hf, Nat.add_zero]
    exact congrArg BitVec.toNat (Function.update_of_ne hfi _ _)

theorem Exact.copyOut (hi : Free m i) (hone : m.memMap (mapNr (m.pte n)) ≠ 1) :
    Exact M (m.copyOut n (mapNr (m.pte n)) i) := by
  have hgi := h.old_ne hn hi
  have hcopy : ∀ f ≠ i, Function.update (m.alloc i).memMap (mapNr (m.pte n))
      (m.memMap (mapNr (m.pte n)) - 1) f
        = if f = mapNr (m.pte n) then m.memMap f - 1 else m.memMap f := fun f hfi => by
    rw [Function.update_apply, alloc_memMap, Function.update_of_ne hfi]
    split_ifs with hfg
    · rw [hfg]
    · rfl
  refine h.fill hn ht hi rfl ?_ (fun f _ _ hf => ?_) fun f hfi hf => ?_
  · show Function.update (m.alloc i).memMap _ _ i = 1
    rw [Function.update_of_ne hgi.symm, alloc_memMap, Function.update_self]
  · have hfi : f ≠ i := by
      rintro rfl
      exact hf hi.unused
    show Function.update (m.alloc i).memMap _ _ f ≠ UNUSED
    rw [hcopy f hfi]
    split_ifs with hfg
    · rw [← hfg] at hone
      exact fun e => hone (sub_eq_zero.mp e)
    · exact hf
  · show (Function.update (m.alloc i).memMap _ _ f).toNat + _ = _
    rw [hcopy f hfi]
    by_cases hfg : f = mapNr (m.pte n)
    · -- a page that is not mapped has frame 0 in its entry
      have hmapped : m.frameOf n = some f := by
        cases hno : m.frameOf n with
        | none => exact absurd (hfg.trans (h.blank n hn hno)) (has_ne_zero hf)
        | some g => rw [hfg, (entryFrame_some hno).2]
      have hpos : (m.memMap f).toNat ≠ 0 := fun e =>
        (h.unused_iff hf).mp (toNat_eq_zero.mp e) (.inl ⟨n, hn, hmapped⟩)
      rw [if_pos hfg, if_pos hmapped]
      bv_omega
    · have hother : m.frameOf n ≠ some f := fun e => hfg (entryFrame_some e).2.symm
      rw [if_neg hfg, if_neg hother, Nat.add_zero]

end

/-! ## The calls -/

theorem Exact.getFreePage (h : Exact M m) {p : Word} (hr : getFreePage k m = some (p, m')) :
    p = 0 ∧ m' = m ∨ ∃ i, Free m i ∧ p = frameAddr i ∧ p ≠ 0 ∧ m' = m.alloc i :=
  h.gives (h.regular.getFreePage_iff.mp ⟨k, hr⟩)

theorem Exact.createPageTable (h : Exact M m) (ha : a ≥ WINDOW) {r : Int}
    (hr : createPageTable k m a = some (r, m')) : Exact M m' := by
  have hn := mem_pages.mp (mem_pages_of_ge ha)
  by_cases habs : m.tableOf (mapNr a / 1024) = none
  · obtain ⟨p, m₁, hg, rfl⟩ := h.regular.createPageTable_gives habs hr
    rcases h.gives hg with ⟨rfl, rfl⟩ | ⟨i, hi, rfl, hne, rfl⟩
    · exact h
    · rw [if_neg hne]
      exact h.newTable hi (by omega) (by omega) habs
  · obtain ⟨t, ht⟩ := Option.ne_none_iff_exists'.mp habs
    cases k with
    | zero =>
        rw [Mem.createPageTable] at hr
        cases hr
    | succ k =>
        rw [Mem.createPageTable, tableEntry_present ht, if_pos rfl] at hr
        cases hr
        exact h

theorem Exact.doNoPage (h : Exact M m) (ha : a ≥ WINDOW) (hr : doNoPage k m a = some m')
    (hc : m.firstFree = none ∨ ∀ f, m.frameOf (mapNr a) = some f → ¬ M.Has f) : Exact M m' := by
  have hn := mem_pages_of_ge ha
  have hn' := mem_pages.mp hn
  cases h.regular.doNoPage_iff.mp ⟨k, hr⟩ with
  | window _ hlt => exact absurd ha (BitVec.not_le.mpr hlt)
  | @noFrame m₁ m₂ hT _ hg =>
      obtain ⟨h₁, -⟩ := h.tableMade (by omega) (by omega) hT
      rcases h₁.gives hg with ⟨-, rfl⟩ | ⟨i, -, -, hne, -⟩
      · exact h₁
      · exact absurd rfl hne
  | @page m₁ m₂ i js hT _ hA _ =>
      obtain ⟨h₁, ht, hframe, -⟩ := h.tableMade (by omega) (by omega) hT
      obtain ⟨hi, rfl⟩ := h₁.allocates hA
      refine h₁.newPage hn ht hi fun f hf => ?_
      rw [hframe _ hn] at hf
      rcases hc with hno | hc
      · -- the page is mapped, so the first look has found the frame
        obtain rfl := hT.eq_of_table (covered_of_frameOf hf)
        exact absurd (hA.firstFree.symm.trans hno) (Option.some_ne_none i)
      · exact hc f hf

theorem Exact.doWpPage (h : Exact M m) (ha : a ≥ WINDOW) (hr : doWpPage k m a = some m')
    (ht : m.tableOf (mapNr a / 1024) ≠ none) : Exact M m' := by
  have hn := mem_pages_of_ge ha
  obtain ⟨t, ht'⟩ := Option.ne_none_iff_exists'.mp ht
  simp only [Mem.doWpPage, load_pagePtr ht', mapNr_mask] at hr
  split at hr
  · cases hr
    rw [store_pagePtr _ _ _ _ rfl]
    exact h.sameFrame hn ht (entryFrame_or_two _) (mapNr_or_two _)
  · next hone =>
      obtain ⟨⟨p, m₁⟩, hp, he⟩ := Option.map_eq_some_iff.mp hr
      rcases h.getFreePage hp with ⟨rfl, rfl⟩ | ⟨i, hi, rfl, hne, rfl⟩
      · exact he ▸ h
      · have hlt := hi.lt
        have hu := h.unlinked hi.lt_pages hi.unused
        have hgi := h.old_ne hn hi
        have hcount : (m.alloc i).memMap (mapNr (m.pte (mapNr a)))
            = m.memMap (mapNr (m.pte (mapNr a))) := Function.update_of_ne hgi _ _
        simp only [if_neg hne] at he
        rw [copyPage_alloc (mapNr_mask _) hgi (by omega), hcount,
          store_pagePtr _ _ _ _ (hu.fill_dir rfl).symm] at he
        exact he ▸ h.copyOut hn ht hi hone

/-- The end of `share_page`. -/
theorem Exact.share (h : Exact M m) (ha : a ≥ WINDOW) (hb : b ≥ WINDOW)
    (hf : m.frameOf (mapNr a) = some f) (ht : m.tableOf (mapNr b / 1024) ≠ none)
    (hold : ∀ g, m.frameOf (mapNr b) = some g → ¬ M.Has g) (hc : m.memMap f ≠ 255) :
    Exact M (m.shareEnd (mapNr a) (mapNr b) f) := by
  have ha' := mem_pages.mp (mem_pages_of_ge ha)
  have hb' := mem_pages.mp (mem_pages_of_ge hb)
  obtain ⟨t, ht⟩ := Option.ne_none_iff_exists'.mp ht
  have hv : entryFrame (m.pte (mapNr a) &&& ~~~2) = some f := by
    rw [entryFrame_readOnly]
    exact hf
  have hT := h.tables.tableOf_link (a := mapNr a) (f := f) hb'.2 ht
  have hlink : Exact M (m.link (mapNr a) (mapNr b) f) := by
    refine h.remap (m.pte (mapNr a) &&& ~~~2) (mem_pages_of_ge hb) hT
      (fun c hc => h.tables.pte_link hb'.2 ht hc) (fun hno => ?_) (fun g hg hm => ?_)
      (fun g _ _ hg => ?_) fun g hg => ?_
    · rw [hv] at hno
      cases hno
    · exact h.below hm (.inl ⟨_, mem_pages_of_ge ha, hf.trans (hv.symm.trans hg)⟩)
    · show Function.update m.memMap f (m.memMap f + 1) g ≠ UNUSED
      rw [Function.update_apply]
      split_ifs
      · exact add_one_ne_unused hc
      · exact hg
    · have hold : m.frameOf (mapNr b) ≠ some g := fun e => hold g e hg
      rw [if_neg hold, hv]
      show (Function.update m.memMap f (m.memMap f + 1) g).toNat + 0 = _
      by_cases hgf : g = f
      · rw [hgf, Function.update_self, toNat_add_one hc, if_pos rfl]
      · rw [Function.update_of_ne hgf, if_neg fun e => hgf (Option.some.inj e).symm]
  rw [shareEnd, if_pos ha'.1, Mem.share]
  have htab : (m.link (mapNr a) (mapNr b) f).tableOf (mapNr a / 1024) ≠ none := by
    rw [hT]
    exact covered_of_frameOf hf
  refine hlink.sameFrame (mem_pages_of_ge ha) htab ?_ ?_
  · rw [h.tables.frameOf_link hb'.2 ht hf ha'.2, hv]
    split_ifs
    · rfl
    · exact hf.symm
  · rw [h.tables.pte_link hb'.2 ht ha'.2]
    split_ifs
    · rfl
    · exact mapNr_readOnly _

/-- The loops for the page `from`. -/
theorem Exact.fromReady (h : Exact M m) (ha : a ≥ WINDOW) (hR : FromReady a m m')
    (hc : m.NoWrap (mapNr a)) : Exact M m' ∧
      (∃ f, m'.frameOf (mapNr a) = some f ∧ m'.memMap f ≠ 255) ∧
      ∀ n ∈ pages, n ≠ mapNr a → m'.frameOf n = m.frameOf n := by
  have hn := mem_pages_of_ge ha
  have hn' := mem_pages.mp hn
  cases hR with
  | here hf =>
      obtain ⟨f, hf⟩ := Option.ne_none_iff_exists'.mp hf
      exact ⟨h, ⟨f, hf, hc f hf⟩, fun _ _ _ => rfl⟩
  | window _ _ hlt => exact absurd ha (BitVec.not_le.mpr hlt)
  | @page m₁ m₂ i habs hT _ ho =>
      obtain ⟨h₁, ht, hframe, -⟩ := h.tableMade (by omega) (by omega) hT
      obtain ⟨hi, rfl⟩ := h₁.obtains ho
      have h₂ : Exact M (m₁.newPage (mapNr a) i) := h₁.newPage hn ht hi fun f hf => by
        rw [hframe _ hn, habs] at hf
        cases hf
      refine ⟨h₂, ⟨i, ?_, ?_⟩, fun c hc hne => ?_⟩
      · exact (h₁.newPage_frameOf hn ht hi hn'.2).trans (if_pos rfl)
      · show Function.update m₁.memMap i 1 i ≠ 255
        rw [Function.update_self]
        decide
      · have hc' := (mem_pages.mp hc).2
        exact (h₁.newPage_frameOf hn ht hi hc').trans ((if_neg hne).trans (hframe c hc))

/-- **One call.** -/
theorem Exact.step {c : MapCall} (h : Exact M m) (hs : MapStep m c m') (hc : c.Tracked M m) :
    Exact M m' := by
  obtain ⟨habove, k, hex⟩ := hs
  cases c with
  | doNoPage a => exact h.doNoPage habove hex hc
  | doWpPage a => exact h.doWpPage habove hex hc
  | sharePage a b =>
      obtain ⟨hne, hold, hwrap⟩ := hc
      have hbn := mem_pages_of_ge habove.2
      have hbn' := mem_pages.mp hbn
      obtain ⟨m₂, m₃, hR, hT, hend⟩ := h.regular.sharePage_result hex
      obtain ⟨h₂, ⟨f, hf, hcount⟩, hother⟩ := h.fromReady habove.1 hR hwrap
      obtain ⟨h₃, ht, hframe, hmap⟩ := h₂.tableMade (by omega) (by omega) hT
      have han := mem_pages_of_ge habove.1
      rw [hend f hf]
      refine h₃.share habove.1 habove.2 ((hframe _ han).trans hf) ht (fun g hg => hold g ?_)
        (hmap f (.inl ⟨_, han, hf⟩) ▸ hcount)
      rw [← hother _ hbn hne.symm, ← hframe _ hbn]
      exact hg
  | createPageTable a =>
      obtain ⟨⟨r, m₁⟩, hm₁, rfl⟩ := Option.map_eq_some_iff.mp hex
      exact h.createPageTable habove hm₁

theorem run_exact {tr : List (Mem × MapCall × Mem)} (h₀ : Exact M m₀) (hr : Run MapStep m₀ tr m)
    (hc : ∀ t ∈ tr, t.2.1.Tracked M t.1) : Exact M m :=
  hr.invariant_of (C := fun m c _ => c.Tracked M m) hc h₀ fun h hs hc => h.step hs hc

theorem Exact.counted (h : Exact M m) : Counted M m where
  exact := h.count
  unused _ hf := h.unused_iff hf
  below _ hf hr := h.below hf hr
  allocatable f hlt hf hr hlow k := by
    have hfree : m.firstFree = some f :=
      firstFree_eq (by unfold PAGING_PAGES; omega) ((h.unused_iff hf).mpr hr) hlow
    exact getFreePage_mapped hfree (h.kernelPage f hlt) k

/-! ## Runs -/

theorem slack_eq (hf : M.Has f) : m.slack M f = (m.memMap f).toNat
    - RefCount.count pages m.frameOf f - RefCount.count (Finset.range 1024) m.tableOf f := by
  have hrefs : (m.space M).refs pages f = RefCount.count pages m.frameOf f :=
    RefCount.count_congr (fun n hn => space_map hn) f
  have hbase : (m.space M).base f = m.tableRefs f := if_pos hf
  rw [slack, CopyOnWrite.Space.slack, hrefs, hbase]
  rfl

theorem Booted.counts (h : Booted M m) : Exact M m where
  tables := h.paged.tables
  kernelPage _ hn := h.paged.kernelPage hn
  gap := h.paged.gap
  kernel f hlt hf hun := by
    have hc := h.paged.safe.counted f
    have hbase : (m.space M).base f = 1 := by simp [space, hf, hlt]
    have hcount : (m.space M).count f = 0 := toNat_eq_zero.mpr hun
    omega
  high := h.paged.high
  count f hf := by
    have hslack := h.exact f hf
    rw [slack_eq hf] at hslack
    omega
  blank n hn hno := by
    rw [h.blank n hn hno]
    rfl

/-- **`mem_map` counts the references** to the frames of the main memory, in every run from
start-up whose calls are all tracked. -/
theorem frame_counts {n : Nat} {image : Mem} {memSize : Word} {tr : List (Mem × MapCall × Mem)}
    (hb : Bare image) (h₀ : boot n image memSize = some m₀) (hr : Run MapStep m₀ tr m)
    (hc : ∀ t ∈ tr, t.2.1.Tracked (mainFrames memSize) t.1) : Counted (mainFrames memSize) m :=
  (run_exact (boot_booted hb h₀).counts hr hc).counted

/-- Two pages of the first process. -/
def page1 : Word := 0x4400000
def page2 : Word := 0x4401000

/-- A new page after start-up, and another one. -/
theorem boot_pages : ∃ m₀ m₁ m₂ f g, boot 20 emptyImage 0x1000000 = some m₀ ∧ Frees m₁ 5 ∧
    Frees m₂ 3 ∧ m₀.doNoPage 5 page1 = some m₁ ∧ m₁.doNoPage 5 page2 = some m₂ ∧
    m₀.frameOf (mapNr page1) = none ∧ m₁.frameOf (mapNr page1) = some f ∧ m₁.memMap f = 1 ∧
    m₁.frameOf (mapNr page2) = none ∧ m₂.frameOf (mapNr page1) = some f ∧ m₂.memMap f = 1 ∧
    m₂.frameOf (mapNr page2) = some g ∧ (mainFrames 0x1000000).Has g ∧
    Paged (mainFrames 0x1000000) m₁ ∧ Paged (mainFrames 0x1000000) m₂ := by
  obtain ⟨m₀, h₀, hfree, ht, -⟩ := boot_returns
  have hp₀ := (boot_booted emptyImage_bare h₀).paged
  have hn₁ : mapNr page1 ∈ pages := mem_pages_of_ge (by decide)
  have hn₂ : mapNr page2 ∈ pages := mem_pages_of_ge (by decide)
  have hne : mapNr page2 ≠ mapNr page1 := by decide
  have hA : m₀.frameOf (mapNr page1) = none := frameOf_none ht
  obtain ⟨m₁, h₁, hP₁⟩ := hp₀.doNoPage_returns (k := 0) (show page1 ≥ WINDOW by decide) hA
    (.inr (hfree.mono (by omega)))
  have hq₁ := hP₁.quiet hp₀ hn₁
  obtain ⟨f, hA₁, hone, -⟩ := hP₁.counter hp₀ hn₁ hA
  have hB₁ : m₁.frameOf (mapNr page2) = none :=
    (hq₁.frameOf (mem_pages.mp hn₂).2 (by simpa using hne)).trans (frameOf_none ht)
  have hfree₁ : Frees m₁ 5 := hfree.page hP₁
  obtain ⟨m₂, h₂, hP₂⟩ := hq₁.paged.doNoPage_returns (k := 0) (show page2 ≥ WINDOW by decide) hB₁
    (.inr (hfree₁.mono (by omega)))
  have hq₂ := hP₂.quiet hq₁.paged hn₂
  obtain ⟨g, hB₂, -, hg⟩ := hP₂.counter hq₁.paged hn₂ hB₁
  refine ⟨m₀, m₁, m₂, f, g, h₀, hfree₁, hfree₁.page hP₂, h₁, h₂, hA, hA₁, hone, hB₁, ?_, ?_, hB₂, hg,
    hq₁.paged, hq₂.paged⟩
  · exact (hq₂.frameOf (mem_pages.mp hn₁).2 (by simpa using hne.symm)).trans hA₁
  · rw [hP₂.memMap (by rw [hone]; decide), hone]

/-- A new page is shared with another one. -/
theorem frame_counts_shared : ∃ m₀ tr m, boot 20 emptyImage 0x1000000 = some m₀ ∧
    Run MapStep m₀ tr m ∧ tr.map (fun t => t.2.1) = [.doNoPage page1, .sharePage page1 page2] ∧
    Counted (mainFrames 0x1000000) m := by
  obtain ⟨m₀, m₁, -, f, -, h₀, hfree, -, h₁, -, hA, hA₁, hone, hB₁, -, -, -, -, hp₁, -⟩ := boot_pages
  have hstep₁ : MapStep m₀ (.doNoPage page1) m₁ := ⟨show page1 ≥ WINDOW by decide, 5, h₁⟩
  obtain ⟨m₂, h₂⟩ := hp₁.sharePage_returns (k := 0) (a := page1) (b := page2) (by decide)
    (hfree.mono (by omega))
  have hstep₂ : MapStep m₁ (.sharePage page1 page2) m₂ := ⟨⟨by decide, by decide⟩, 7, h₂⟩
  have hr := (Run.nil.snoc hstep₁).snoc hstep₂
  refine ⟨m₀, _, m₂, h₀, hr, rfl, frame_counts emptyImage_bare h₀ hr fun t ht => ?_⟩
  simp only [List.nil_append, List.cons_append, List.mem_cons, List.not_mem_nil, or_false] at ht
  rcases ht with rfl | rfl
  · refine .inr fun f hf => ?_
    rw [hA] at hf
    cases hf
  · refine ⟨by decide, fun f hf => ?_, fun f hf => ?_⟩
    · rw [hB₁] at hf
      cases hf
    · obtain rfl := Option.some.inj (hA₁.symm.trans hf)
      rw [hone]
      decide

/-- A page that is mapped already is shared: the frame it had keeps its count. -/
theorem frame_lost : ∃ m₀ tr m, boot 20 emptyImage 0x1000000 = some m₀ ∧
    Run MapStep m₀ tr m ∧ tr.map (fun t => t.2.1) =
      [.doNoPage page1, .doNoPage page2, .sharePage page1 page2] ∧
    ¬ Counted (mainFrames 0x1000000) m := by
  obtain ⟨m₀, m₁, m₂, f, g, h₀, -, hfree, h₁, h₂, hA, -, -, hB₁, hA₂, hone, hB₂, hg, -, hp₂⟩ :=
    boot_pages
  have hstep₁ : MapStep m₀ (.doNoPage page1) m₁ := ⟨show page1 ≥ WINDOW by decide, 5, h₁⟩
  have hstep₂ : MapStep m₁ (.doNoPage page2) m₂ := ⟨show page2 ≥ WINDOW by decide, 5, h₂⟩
  have hexact₁ := (boot_booted emptyImage_bare h₀).counts.step hstep₁ <| .inr fun f hf => by
    rw [hA] at hf
    cases hf
  have hexact₂ := hexact₁.step hstep₂ <| .inr fun f hf => by
    rw [hB₁] at hf
    cases hf
  obtain ⟨m₃, h₃⟩ := hp₂.sharePage_returns (k := 0) (a := page1) (b := page2)
    (by decide) hfree
  have hstep₃ : MapStep m₂ (.sharePage page1 page2) m₃ := ⟨⟨by decide, by decide⟩, 7, h₃⟩
  refine ⟨m₀, _, m₃, h₀, ((Run.nil.snoc hstep₁).snoc hstep₂).snoc hstep₃, rfl, fun hcount => ?_⟩
  have hsh := hp₂.sharePage_shared (by decide) (by decide) (fun f' hf => by
    obtain rfl := Option.some.inj (hA₂.symm.trans hf)
    rw [hone]
    decide) h₃
  have hslack := hsh.slack (by decide) g
  rw [hB₂, if_pos rfl, slack_eq hg, slack_eq hg] at hslack
  have := hexact₂.count g hg
  have := hcount.exact g hg
  omega

end Mks.Mem
