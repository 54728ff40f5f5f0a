import Mks.Memory.Tables

set_option autoImplicit false

/-! # The paging invariant

`Paged M m`: the kernel window is the identity below 32MB, and above 64MB the pages and frames
form a safe copy-on-write space. The functions of `kernel/memory.c` change the memory by a few
moves; each keeps the invariant and is a sequence of moves of the space.
-/

namespace Mks

open CopyOnWrite

/-- The main memory that `mem_init` gets: the frames from `lo` up to `hi`. -/
structure MainMemory where
  lo : Nat
  hi : Nat
  lo_ge : 160 ≤ lo
  lo_le : lo ≤ 8192
  hi_le : hi ≤ PAGING_PAGES

def MainMemory.Has (M : MainMemory) (f : Nat) : Prop := M.lo ≤ f ∧ f < M.hi

instance (M : MainMemory) (f : Nat) : Decidable (M.Has f) := inferInstanceAs (Decidable (_ ∧ _))

/-- The pages from 64MB on. -/
def pages : Finset Nat := Finset.Ico 16384 1048576

theorem mem_pages {n : Nat} : n ∈ pages ↔ 16384 ≤ n ∧ n < 1048576 := Finset.mem_Ico

namespace Mem

def zeroFrame : Nat → Word := fun _ => 0

/-- The number of page-directory entries that use a frame as a page table. -/
def tableRefs (m : Mem) (f : Nat) : Nat := RefCount.count (Finset.range 1024) m.tableOf f

/-- The pages from 64MB on. The kernel itself uses the page tables and all frames outside the main
memory. -/
def space (M : MainMemory) (m : Mem) : Space Nat Nat (Nat → Word) where
  map n := if n ∈ pages then m.frameOf n else none
  writable n := decide (n ∈ pages) && writable (m.pte n)
  count f := (m.memMap f).toNat
  base f := if M.Has f then m.tableRefs f else if f < PAGING_PAGES then 1 else 0
  data := m.phys

/-- Neither beyond the physical memory nor a page table of the main memory. -/
def Mappable (M : MainMemory) (m : Mem) (f : Nat) : Prop :=
  f < PAGING_PAGES ∧ (M.Has f → m.tableRefs f = 0)

structure Paged (M : MainMemory) (m : Mem) : Prop where
  /-- The tables of `setup_paging`, and what they map. -/
  kernelTable : ∀ d < 8, m.tableOf d = some (8 + d)
  kernelPte : ∀ n < 8192, m.pte n = frameAddr n ||| 7
  /-- There is no table for the rest of the kernel window. -/
  gap : ∀ d, 8 ≤ d → d < 16 → m.tableOf d = none
  table : ∀ d, 16 ≤ d → d < 1024 → ∀ t, m.tableOf d = some t → M.Has t ∧ t < 8192
  once : ∀ f, M.Has f → m.tableRefs f ≤ 1
  page : ∀ n ∈ pages, ∀ f, m.frameOf n = some f → Mappable M m f
  /-- The frames that the kernel cannot reach are never given away. -/
  high : ∀ f, 8192 ≤ f → M.Has f → m.memMap f = 0
  safe : (m.space M).Safe pages

/-- A frame that is free, and that the kernel can reach. -/
structure Free (m : Mem) (i : Nat) : Prop where
  lt : i < 8192
  unused : m.memMap i = UNUSED

variable {M : MainMemory} {m m' : Mem}

theorem Free.lt_pages {i : Nat} (h : Free m i) : i < PAGING_PAGES := by
  have := h.lt
  unfold PAGING_PAGES
  omega

theorem space_map {n : Nat} (hn : n ∈ pages) : (m.space M).map n = m.frameOf n := if_pos hn

theorem space_writable {n : Nat} (hn : n ∈ pages) :
    (m.space M).writable n = writable (m.pte n) := by
  show (decide (n ∈ pages) && writable (m.pte n)) = _
  rw [decide_eq_true hn, Bool.true_and]

theorem Paged.has_ne (M : MainMemory) {t : Nat} (h : M.Has t) : 160 ≤ t := le_trans M.lo_ge h.1

theorem Paged.kernelPage (h : Paged M m) {n : Nat} (hn : n < 8192) : m.frameOf n = some n := by
  rw [frameOf, h.kernelPte n hn]
  exact entryFrame_frameAddr (by omega)

theorem Paged.tables (h : Paged M m) : Tables m where
  ne d hd t ht := by
    rcases Nat.lt_or_ge d 8 with h8 | h8
    · rw [h.kernelTable d h8] at ht
      have := Option.some.inj ht
      omega
    · rcases Nat.lt_or_ge d 16 with h16 | h16
      · rw [h.gap d h8 h16] at ht
        cases ht
      · have := Paged.has_ne M (h.table d h16 hd t ht).1
        omega
  inj d hd d' hd' t ht ht' := by
    -- the kernel's own tables lie below all others
    have hkind : ∀ e < 1024, m.tableOf e = some t → (e < 8 ∧ t = 8 + e) ∨ M.Has t := by
      intro e he hte
      rcases Nat.lt_or_ge e 8 with h8 | h8
      · rw [h.kernelTable e h8] at hte
        exact .inl ⟨h8, (Option.some.inj hte).symm⟩
      · rcases Nat.lt_or_ge e 16 with h16 | h16
        · rw [h.gap e h8 h16] at hte
          cases hte
        · exact .inr (h.table e h16 he t hte).1
    rcases hkind d hd ht with ⟨h8, hd8⟩ | hmain
    · rcases hkind d' hd' ht' with ⟨h8', hd8'⟩ | hmain
      · omega
      · have := Paged.has_ne M hmain
        omega
    · exact RefCount.eq_of_count_le_one (h.once t hmain) (Finset.mem_range.mpr hd)
        (Finset.mem_range.mpr hd') ht ht'

/-- A free frame belongs to the main memory, and is neither a page table nor mapped. -/
theorem Paged.free (h : Paged M m) {i : Nat} (hi : Free m i) :
    M.Has i ∧ m.tableRefs i = 0 ∧ (∀ d < 1024, m.tableOf d ≠ some i) ∧
      ∀ n ∈ pages, m.frameOf n ≠ some i := by
  have hcount : (m.space M).count i = 0 := by
    show (m.memMap i).toNat = 0
    rw [hi.unused]
    rfl
  obtain ⟨-, hbase, hmap⟩ := h.safe.free hcount
  have hlt := hi.lt_pages
  have hmain : M.Has i := by
    by_contra hno
    simp [space, hno, hlt] at hbase
  have hrefs : m.tableRefs i = 0 := by simpa [space, hmain] using hbase
  refine ⟨hmain, hrefs, fun d hd => ?_, fun n hn => ?_⟩
  · exact RefCount.count_eq_zero.mp hrefs d (Finset.mem_range.mpr hd)
  · exact space_map (M := M) hn ▸ hmap n hn

/-! ## Filling a free frame -/

/-- What `get_free_page` does to the frame that it returns. -/
def alloc (m : Mem) (i : Nat) : Mem := (m.clear i).setMap i 1

theorem alloc_memMap (i : Nat) : (m.alloc i).memMap = Function.update m.memMap i 1 := rfl

theorem alloc_phys (i : Nat) : (m.alloc i).phys = Function.update m.phys i zeroFrame := rfl

section
variable {m₁ : Mem} {i : Nat} {x : Nat → Word}

theorem Paged.unlinked (h : Paged M m) (hi : Free m i) : Unlinked m i where
  ne_dir := by
    have := Paged.has_ne M (h.free hi).1
    omega
  ne_table := (h.free hi).2.2.1

/-- A free frame is not the page directory. -/
theorem Paged.fill_dir (h : Paged M m) (hi : Free m i) (hp : m₁.phys = Function.update m.phys i x) :
    m₁.phys 7 = m.phys 7 := (h.unlinked hi).fill_dir hp

theorem Paged.fill_tableOf (h : Paged M m) (hi : Free m i)
    (hp : m₁.phys = Function.update m.phys i x) : m₁.tableOf = m.tableOf :=
  (h.unlinked hi).fill_tableOf hp

theorem Paged.fill_pte (h : Paged M m) (hi : Free m i) (hp : m₁.phys = Function.update m.phys i x)
    {n : Nat} (hn : n < 1048576) : m₁.pte n = m.pte n := (h.unlinked hi).fill_pte hp hn

theorem Paged.fill_tables (h : Paged M m) (hi : Free m i)
    (hp : m₁.phys = Function.update m.phys i x) : Tables m₁ :=
  h.tables.congr (h.fill_tableOf hi hp)

theorem Paged.fill_space (h : Paged M m) (hi : Free m i)
    (hp : m₁.phys = Function.update m.phys i x) :
    m₁.space M = { m.space M with
      count := fun f => (m₁.memMap f).toNat
      data := Function.update (m.space M).data i x } := by
  have hpte : ∀ n ∈ pages, m₁.pte n = m.pte n := fun n hn => h.fill_pte hi hp (mem_pages.mp hn).2
  ext1
  · funext n
    by_cases hn : n ∈ pages
    · rw [space_map hn, space_map hn, frameOf, hpte n hn, frameOf]
    · simp [space, hn]
  · funext n
    by_cases hn : n ∈ pages
    · rw [space_writable hn, space_writable hn, hpte n hn]
    · simp [space, hn]
  · rfl
  · simp only [space, tableRefs, h.fill_tableOf hi hp]
  · exact hp

end

/-- Counters as numbers, after an update. -/
theorem toNat_update (g : Nat → BitVec 8) (i : Nat) (c : BitVec 8) :
    (fun f => (Function.update g i c f).toNat)
      = Function.update (fun f => (g f).toNat) i c.toNat := by
  funext f
  by_cases hf : f = i
  · subst hf
    simp
  · simp [hf]

/-! ## Setting a page-table entry -/

theorem Tables.frameOf_putPte (h : Tables m) {n t : Nat} (hn : n < 1048576)
    (ht : m.tableOf (n / 1024) = some t) (v : Word) {a : Nat} (ha : a < 1048576) :
    (m.putPte n v).frameOf a = if a = n then entryFrame v else m.frameOf a := by
  rw [frameOf, h.pte_putPte hn ht v ha]
  split <;> rfl

theorem Tables.space_putPte (h : Tables m) {n t : Nat} (hn : n ∈ pages)
    (ht : m.tableOf (n / 1024) = some t) (v : Word) :
    (m.putPte n v).space M = { m.space M with
      map := Function.update (m.space M).map n (entryFrame v)
      writable := Function.update (m.space M).writable n (writable v)
      data := Function.update (m.space M).data t
        (Function.update ((m.space M).data t) (n % 1024) v) } := by
  have hlt := (mem_pages.mp hn).2
  ext1
  · funext a
    by_cases ha : a ∈ pages
    · rw [space_map ha, h.frameOf_putPte hlt ht v (mem_pages.mp ha).2]
      by_cases he : a = n
      · subst he
        simp
      · simp [he, space_map ha]
    · have he : a ≠ n := fun e => ha (e ▸ hn)
      simp [space, ha, he]
  · funext a
    by_cases ha : a ∈ pages
    · rw [space_writable ha, h.pte_putPte hlt ht v (mem_pages.mp ha).2]
      by_cases he : a = n
      · subst he
        simp
      · simp [he, space_writable ha]
    · have he : a ≠ n := fun e => ha (e ▸ hn)
      simp [space, ha, he]
  · rfl
  · simp only [space, tableRefs, h.tableOf_putPte hlt ht]
  · rw [putPte_eq ht]
    rfl

/-! ## The moves -/

/-- From `m` to `m'` by moves of the space. -/
structure Moves (M : MainMemory) (m m' : Mem) (mvs : List (Move Nat Nat (Nat → Word))) : Prop where
  paged : Paged M m'
  allowed : (m.space M).AllAllowed zeroFrame pages mvs
  space : m'.space M = (m.space M).applyAll zeroFrame mvs

/-- Moves that leave the page directory and the kernel window as they are. -/
theorem Paged.moves (h : Paged M m) {mvs : List (Move Nat Nat (Nat → Word))}
    (hT : m'.tableOf = m.tableOf) (hk : ∀ n < 8192, m'.pte n = m.pte n)
    (hp : ∀ n ∈ pages, ∀ f, m'.frameOf n = some f → Mappable M m f)
    (hh : ∀ f, 8192 ≤ f → M.Has f → m'.memMap f = m.memMap f)
    (ha : (m.space M).AllAllowed zeroFrame pages mvs)
    (hs : m'.space M = (m.space M).applyAll zeroFrame mvs) : Moves M m m' mvs := by
  have hR : m'.tableRefs = m.tableRefs := by
    funext f
    rw [tableRefs, hT, tableRefs]
  refine ⟨⟨?_, ?_, ?_, ?_, ?_, ?_, ?_, ?_⟩, ha, hs⟩
  · exact fun d hd => hT ▸ h.kernelTable d hd
  · exact fun n hn => (hk n hn).trans (h.kernelPte n hn)
  · exact fun d hd hd' => hT ▸ h.gap d hd hd'
  · exact fun d hd hd' t ht => h.table d hd hd' t (hT ▸ ht)
  · intro f hf
    rw [hR]
    exact h.once f hf
  · intro n hn f hf
    rw [Mappable, hR]
    exact hp n hn f hf
  · exact fun f hf hmain => (hh f hf hmain).trans (h.high f hf hmain)
  · rw [hs]
    exact h.safe.applyAll ha

theorem Paged.mappable_of_free (h : Paged M m) {i : Nat} (hi : Free m i) : Mappable M m i :=
  ⟨hi.lt_pages, fun _ => (h.free hi).2.1⟩

theorem Free.count {i : Nat} (hi : Free m i) : (m.space M).count i = 0 := by
  show (m.memMap i).toNat = 0
  rw [hi.unused]
  rfl

/-- The table of a page from 64MB on. -/
theorem Paged.page_table (h : Paged M m) {n t : Nat} (hn : n ∈ pages)
    (ht : m.tableOf (n / 1024) = some t) : M.Has t ∧ (m.space M).base t ≠ 0 := by
  have hn := mem_pages.mp hn
  have hmain := (h.table (n / 1024) (by omega) (by omega) t ht).1
  refine ⟨hmain, ?_⟩
  have hone : 1 ≤ m.tableRefs t :=
    RefCount.one_le_count (Finset.mem_range.mpr (by omega)) ht
  show (if M.Has t then m.tableRefs t else _) ≠ 0
  rw [if_pos hmain]
  omega

/-- Frames that the kernel cannot reach are in no use. -/
theorem Paged.lt_of_has (h : Paged M m) {n f : Nat} (hn : n ∈ pages) (hf : m.frameOf n = some f)
    (hmain : M.Has f) : f < 8192 := by
  by_contra hge
  have hone := h.safe.one_le hn (space_map (M := M) hn ▸ hf)
  have hzero : (m.memMap f).toNat = 0 := by
    rw [h.high f (by omega) hmain]
    rfl
  have hone : 1 ≤ (m.memMap f).toNat := hone
  omega

/-! ### A page in a free frame -/

section
variable {m₁ : Mem} {n t i : Nat} {x : Nat → Word}

theorem Paged.pte_fillPage (h : Paged M m) (hi : Free m i)
    (hp : m₁.phys = Function.update m.phys i x) (hn : n ∈ pages)
    (ht : m.tableOf (n / 1024) = some t) {a : Nat} (ha : a < 1048576) :
    (m₁.putPte n (frameAddr i ||| 7)).pte a = if a = n then frameAddr i ||| 7 else m.pte a := by
  have ht' : m₁.tableOf (n / 1024) = some t := h.fill_tableOf hi hp ▸ ht
  rw [(h.fill_tables hi hp).pte_putPte (mem_pages.mp hn).2 ht' _ ha, h.fill_pte hi hp ha]

theorem Paged.frameOf_fillPage (h : Paged M m) (hi : Free m i)
    (hp : m₁.phys = Function.update m.phys i x) (hn : n ∈ pages)
    (ht : m.tableOf (n / 1024) = some t) {a : Nat} (ha : a < 1048576) :
    (m₁.putPte n (frameAddr i ||| 7)).frameOf a = if a = n then some i else m.frameOf a := by
  have hlt := hi.lt
  rw [frameOf, h.pte_fillPage hi hp hn ht ha]
  split
  · exact entryFrame_frameAddr (by omega)
  · rfl

/-- Page `n` gets frame `i`, with the contents `x`. -/
theorem Paged.fillPage (h : Paged M m) (hi : Free m i) (hp : m₁.phys = Function.update m.phys i x)
    (hn : n ∈ pages) (ht : m.tableOf (n / 1024) = some t)
    (hh : ∀ f, 8192 ≤ f → M.Has f → m₁.memMap f = m.memMap f)
    {mv : Move Nat Nat (Nat → Word)} (ha : (m.space M).Allowed pages mv)
    (hbase : ((m.space M).apply zeroFrame mv).base = (m.space M).base)
    (hs : { m.space M with
      map := Function.update (m.space M).map n (some i)
      writable := Function.update (m.space M).writable n true
      count := fun f => (m₁.memMap f).toNat
      data := Function.update (m.space M).data i x } = (m.space M).apply zeroFrame mv) :
    ∃ v, Moves M m (m₁.putPte n (frameAddr i ||| 7)) [mv, .poke t v] := by
  refine ⟨Function.update (m₁.phys t) (n % 1024) (frameAddr i ||| 7), ?_⟩
  have hlt := hi.lt
  have hn' := mem_pages.mp hn
  have ht' : m₁.tableOf (n / 1024) = some t := h.fill_tableOf hi hp ▸ ht
  refine h.moves ?_ ?_ ?_ ?_ ?_ ?_
  · exact ((h.fill_tables hi hp).tableOf_putPte hn'.2 ht' _).trans (h.fill_tableOf hi hp)
  · intro a ha
    rw [h.pte_fillPage hi hp hn ht (by omega), if_neg (by omega)]
  · intro a ha f hf
    rw [h.frameOf_fillPage hi hp hn ht (mem_pages.mp ha).2] at hf
    split at hf
    · exact Option.some.inj hf ▸ h.mappable_of_free hi
    · exact h.page a ha f hf
  · exact hh
  · refine ⟨ha, ?_, trivial⟩
    rw [Space.Allowed, hbase]
    exact (h.page_table hn ht).2
  · rw [(h.fill_tables hi hp).space_putPte hn ht', h.fill_space hi hp,
      entryFrame_frameAddr (by omega), writable_or_seven, Space.applyAll, ← hs, Space.applyAll,
      Space.applyAll, Space.apply, hp]
    rfl

/-- The new page of `do_no_page`. -/
def newPage (m : Mem) (n i : Nat) : Mem := (m.alloc i).putPte n (frameAddr i ||| 7)

theorem Paged.newPage (h : Paged M m) (hi : Free m i) (hn : n ∈ pages)
    (ht : m.tableOf (n / 1024) = some t) :
    ∃ v, Moves M m (m.newPage n i) [.fresh n i, .poke t v] := by
  have hlt := hi.lt
  refine h.fillPage hi (alloc_phys i) hn ht (fun f hf _ => ?_) ⟨hn, hi.count⟩ rfl ?_
  · rw [alloc_memMap, Function.update_of_ne (by omega)]
  · rw [alloc_memMap, toNat_update]
    rfl

/-- Page `n` leaves frame `f` for a copy of it in frame `i`. -/
def copyOut (m : Mem) (n f i : Nat) : Mem :=
  ({ memMap := Function.update (m.alloc i).memMap f (m.memMap f - 1)
     phys := Function.update m.phys i (m.phys f) } : Mem).putPte n (frameAddr i ||| 7)

theorem Paged.copyOut (h : Paged M m) (hi : Free m i) (hn : n ∈ pages) {f : Nat}
    (hf : m.frameOf n = some f) (hone : m.memMap f ≠ 1) :
    ∃ t v, Moves M m (m.copyOut n f i) [.copy n f i, .poke t v] := by
  obtain ⟨t, ht⟩ := tableOf_of_frameOf hf
  have hlt := hi.lt
  have hmap := (space_map (M := M) hn).trans hf
  have hcount : 1 ≤ (m.memMap f).toNat := h.safe.one_le hn hmap
  refine ⟨t, h.fillPage hi rfl hn ht (fun g hg hmain => ?_)
    ⟨hn, hmap, fun e => hone ?_, hi.count⟩ rfl ?_⟩
  · show Function.update (m.alloc i).memMap f _ g = _
    have hne : g ≠ f := by
      rintro rfl
      have := h.lt_of_has hn hf hmain
      omega
    rw [Function.update_of_ne hne, alloc_memMap, Function.update_of_ne (by omega)]
  · exact BitVec.eq_of_toNat_eq e
  · have hsub : (m.memMap f - 1).toNat = (m.memMap f).toNat - 1 :=
      BitVec.toNat_sub_of_le (BitVec.le_def.mpr hcount)
    ext1
    · rfl
    · rfl
    · show (fun g => (Function.update (m.alloc i).memMap f (m.memMap f - 1) g).toNat) = _
      rw [toNat_update, alloc_memMap, toNat_update, hsub]
      rfl
    · rfl
    · rfl

/-! ### Write faults -/

/-- The page that has its frame alone becomes writable. -/
def unprotect (m : Mem) (n : Nat) : Mem := m.putPte n (m.pte n ||| 2)

theorem Paged.frameOf_unprotect (h : Paged M m) (hn : n ∈ pages)
    (ht : m.tableOf (n / 1024) = some t) {a : Nat} (ha : a < 1048576) :
    (m.unprotect n).frameOf a = m.frameOf a := by
  rw [unprotect, h.tables.frameOf_putPte (mem_pages.mp hn).2 ht _ ha, entryFrame_or_two]
  split
  · next he => rw [he, frameOf]
  · rfl

theorem Paged.unprotect (h : Paged M m) (hn : n ∈ pages) {f : Nat} (hf : m.frameOf n = some f)
    (hone : m.memMap f = 1) : ∃ t v, Moves M m (m.unprotect n) [.reuse n f, .poke t v] := by
  obtain ⟨t, ht⟩ := tableOf_of_frameOf hf
  have hn' := mem_pages.mp hn
  refine ⟨t, Function.update (m.phys t) (n % 1024) (m.pte n ||| 2), h.moves ?_ ?_ ?_ ?_ ?_ ?_⟩
  · exact h.tables.tableOf_putPte hn'.2 ht _
  · intro a ha
    rw [Mem.unprotect, h.tables.pte_putPte hn'.2 ht _ (by omega), if_neg (by omega)]
  · intro a ha g hg
    rw [h.frameOf_unprotect hn ht (mem_pages.mp ha).2] at hg
    exact h.page a ha g hg
  · exact fun _ _ _ => rfl
  · refine ⟨⟨hn, (space_map hn).trans hf, ?_⟩, (h.page_table hn ht).2, trivial⟩
    show (m.memMap f).toNat = 1
    rw [hone]
    rfl
  · have hmap : Function.update (m.space M).map n (some f) = (m.space M).map := by
      rw [← hf, ← space_map (M := M) hn]
      exact Function.update_eq_self ..
    rw [Mem.unprotect, h.tables.space_putPte hn ht, entryFrame_or_two, writable_or_two, ← frameOf,
      hf, hmap]
    rfl

/-! ### Sharing -/

/-- The end of `share_page`: the counter of the frame of page `a` goes up, and page `b` gets its
entry, read-only. -/
def link (m : Mem) (a b f : Nat) : Mem :=
  (m.setMap f (m.memMap f + 1)).putPte b (m.pte a &&& ~~~2)

theorem space_setMap (f : Nat) (c : BitVec 8) :
    (m.setMap f c).space M =
      { m.space M with count := Function.update (m.space M).count f c.toNat } := by
  ext1
  · rfl
  · rfl
  · exact toNat_update _ _ _
  · rfl
  · rfl

theorem Tables.setMap (h : Tables m) (f : Nat) (c : BitVec 8) : Tables (m.setMap f c) :=
  h.congr rfl

theorem Tables.pte_link (h : Tables m) {a b f : Nat} (hb : b < 1048576)
    (ht : m.tableOf (b / 1024) = some t) {c : Nat} (hc : c < 1048576) :
    (m.link a b f).pte c = if c = b then m.pte a &&& ~~~2 else m.pte c :=
  (h.setMap f _).pte_putPte hb ht _ hc

theorem Tables.frameOf_link (h : Tables m) {a b f : Nat} (hb : b < 1048576)
    (ht : m.tableOf (b / 1024) = some t) (hf : m.frameOf a = some f) {c : Nat} (hc : c < 1048576) :
    (m.link a b f).frameOf c = if c = b then some f else m.frameOf c := by
  rw [frameOf, h.pte_link hb ht hc]
  split
  · rw [entryFrame_readOnly, ← frameOf, hf]
  · rfl

theorem toNat_add_one {c : BitVec 8} (h : c ≠ 255) : (c + 1).toNat = c.toNat + 1 := by
  have hne : c.toNat ≠ 255 := fun e => h (BitVec.eq_of_toNat_eq e)
  have := c.isLt
  rw [BitVec.toNat_add]
  show (c.toNat + 1) % 256 = _
  omega

theorem Paged.space_link (h : Paged M m) {a b f : Nat} (hb : b ∈ pages)
    (ht : m.tableOf (b / 1024) = some t) (hf : m.frameOf a = some f) (hc : m.memMap f ≠ 255) :
    (m.link a b f).space M = { m.space M with
      map := Function.update (m.space M).map b (some f)
      writable := Function.update (m.space M).writable b false
      count := Function.update (m.space M).count f ((m.space M).count f + 1)
      data := Function.update m.phys t
        (Function.update (m.phys t) (b % 1024) (m.pte a &&& ~~~2)) } := by
  rw [link, (h.tables.setMap f _).space_putPte hb ht, entryFrame_readOnly, ← frameOf, hf,
    writable_readOnly, space_setMap, toNat_add_one hc]
  rfl

/-- A page of the kernel window is shared: its frame is not in the main memory. -/
theorem Paged.link (h : Paged M m) {a b f : Nat} (hb : b ∈ pages)
    (ht : m.tableOf (b / 1024) = some t) (hf : m.frameOf a = some f) (hc : m.memMap f ≠ 255)
    (hmain : ¬ M.Has f) (hlt : f < PAGING_PAGES) :
    ∃ v, Moves M m (m.link a b f) [.link b f, .poke t v] := by
  have hb' := mem_pages.mp hb
  refine ⟨Function.update (m.phys t) (b % 1024) (m.pte a &&& ~~~2), h.moves ?_ ?_ ?_ ?_ ?_ ?_⟩
  · exact (h.tables.setMap f _).tableOf_putPte hb'.2 ht _
  · intro c hc
    rw [h.tables.pte_link hb'.2 ht (by omega), if_neg (by omega)]
  · intro c hc g hg
    rw [h.tables.frameOf_link hb'.2 ht hf (mem_pages.mp hc).2] at hg
    split at hg
    · exact Option.some.inj hg ▸ ⟨hlt, fun e => absurd e hmain⟩
    · exact h.page c hc g hg
  · intro g hg hg'
    have hne : g ≠ f := fun e => hmain (e ▸ hg')
    exact Function.update_of_ne hne _ _
  · refine ⟨⟨hb, fun c hc' hcf => ?_⟩, (h.page_table hb ht).2, trivial⟩
    -- a frame that the kernel uses is mapped read-only
    by_contra hw
    have hone := h.safe.alone c hc' f hcf (by simpa using hw)
    have hcount := h.safe.counted f
    have hrefs : 1 ≤ (m.space M).refs pages f := RefCount.one_le_count hc' hcf
    have hbase : (m.space M).base f = 1 := by simp [space, hmain, hlt]
    omega
  · exact h.space_link hb ht hf hc

/-- `share_page` of two pages from 64MB on. -/
def share (m : Mem) (a b f : Nat) : Mem := (m.link a b f).putPte a (m.pte a &&& ~~~2)

theorem Tables.tableOf_link (h : Tables m) {a b f : Nat} (hb : b < 1048576)
    (ht : m.tableOf (b / 1024) = some t) : (m.link a b f).tableOf = m.tableOf :=
  (h.setMap f _).tableOf_putPte hb ht _

theorem Tables.pte_share (h : Tables m) {a b f : Nat} (ha : a < 1048576) (hb : b < 1048576)
    (ht : m.tableOf (b / 1024) = some t) (hf : m.frameOf a = some f) {c : Nat} (hc : c < 1048576) :
    (m.share a b f).pte c = if c = a ∨ c = b then m.pte a &&& ~~~2 else m.pte c := by
  obtain ⟨t', ht'⟩ := tableOf_of_frameOf hf
  have hT := h.tableOf_link (a := a) (f := f) hb ht
  rw [Mem.share, (h.congr hT).pte_putPte ha (hT ▸ ht') _ hc, h.pte_link hb ht hc]
  by_cases hca : c = a
  · simp [hca]
  · simp [hca]

theorem Paged.tableOf_link (h : Paged M m) {a b f : Nat} (hb : b ∈ pages)
    (ht : m.tableOf (b / 1024) = some t) : (m.link a b f).tableOf = m.tableOf :=
  h.tables.tableOf_link (mem_pages.mp hb).2 ht

theorem Paged.pte_share (h : Paged M m) {a b f : Nat} (ha : a ∈ pages) (hb : b ∈ pages)
    (ht : m.tableOf (b / 1024) = some t) (hf : m.frameOf a = some f) {c : Nat} (hc : c < 1048576) :
    (m.share a b f).pte c = if c = a ∨ c = b then m.pte a &&& ~~~2 else m.pte c :=
  h.tables.pte_share (mem_pages.mp ha).2 (mem_pages.mp hb).2 ht hf hc

theorem Paged.frameOf_share (h : Paged M m) {a b f : Nat} (ha : a ∈ pages) (hb : b ∈ pages)
    (ht : m.tableOf (b / 1024) = some t) (hf : m.frameOf a = some f) {c : Nat} (hc : c < 1048576) :
    (m.share a b f).frameOf c = if c = b then some f else m.frameOf c := by
  rw [frameOf, h.pte_share ha hb ht hf hc]
  by_cases hcb : c = b
  · rw [if_pos (.inr hcb), if_pos hcb, entryFrame_readOnly, ← frameOf, hf]
  · rw [if_neg hcb]
    by_cases hca : c = a
    · rw [if_pos (.inl hca), entryFrame_readOnly, hca, frameOf]
    · rw [if_neg (by tauto), frameOf]

theorem Paged.share (h : Paged M m) {a b f : Nat} (ha : a ∈ pages) (hb : b ∈ pages)
    (ht : m.tableOf (b / 1024) = some t) (hf : m.frameOf a = some f) (hc : m.memMap f ≠ 255) :
    ∃ t' v v', Moves M m (m.share a b f) [.protect a, .link b f, .poke t v, .poke t' v'] := by
  obtain ⟨t', ht'⟩ := tableOf_of_frameOf hf
  have hT := h.tableOf_link (a := a) (f := f) hb ht
  have hTa : (m.link a b f).tableOf (a / 1024) = some t' := hT ▸ ht'
  refine ⟨t', Function.update (m.phys t) (b % 1024) (m.pte a &&& ~~~2),
    Function.update ((m.link a b f).space M |>.data t') (a % 1024) (m.pte a &&& ~~~2),
    h.moves ?_ ?_ ?_ ?_ ?_ ?_⟩
  · exact ((h.tables.congr hT).tableOf_putPte (mem_pages.mp ha).2 hTa _).trans hT
  · intro c hc
    have ha' := mem_pages.mp ha
    have hb' := mem_pages.mp hb
    rw [h.pte_share ha hb ht hf (by omega), if_neg (by omega)]
  · intro c hc g hg
    rw [h.frameOf_share ha hb ht hf (mem_pages.mp hc).2] at hg
    split at hg
    · exact Option.some.inj hg ▸ h.page a ha f hf
    · exact h.page c hc g hg
  · intro g hg hmain
    have hne : g ≠ f := by
      rintro rfl
      have := h.lt_of_has ha hf hmain
      omega
    exact Function.update_of_ne hne _ _
  · refine ⟨ha, ⟨hb, fun c hc' hcf => ?_⟩, (h.page_table hb ht).2, (h.page_table ha ht').2, trivial⟩
    -- page `a` alone may have been writable
    by_cases hca : c = a
    · subst hca
      exact Function.update_self ..
    · refine (Function.update_of_ne hca _ _).trans ?_
      by_contra hw
      have hone := h.safe.alone c hc' f hcf (by simpa using hw)
      exact hca (h.safe.eq_of_count hone hc' ha hcf ((space_map ha).trans hf))
  · have hmap : Function.update (Function.update (m.space M).map b (some f)) a (some f)
        = Function.update (m.space M).map b (some f) := by
      funext c
      by_cases hca : c = a
      · subst hca
        rw [Function.update_self]
        by_cases hcb : c = b
        · rw [hcb, Function.update_self]
        · rw [Function.update_of_ne hcb, space_map ha, hf]
      · rw [Function.update_of_ne hca]
    have hwr : Function.update (Function.update (m.space M).writable b false) a false
        = Function.update (Function.update (m.space M).writable a false) b false := by
      funext c
      by_cases hca : c = a <;> by_cases hcb : c = b <;> simp [hca, hcb, Function.update_apply]
    rw [Mem.share, (h.tables.congr hT).space_putPte ha hTa, entryFrame_readOnly, ← frameOf, hf,
      writable_readOnly, h.space_link hb ht hf hc]
    show ({ m.space M with
      map := Function.update (Function.update (m.space M).map b (some f)) a (some f)
      writable := Function.update (Function.update (m.space M).writable b false) a false
      count := _, data := _ } : Space _ _ _) = _
    rw [hmap, hwr]
    rfl

/-! ### A page table -/

def newTable (m : Mem) (d i : Nat) : Mem := (m.alloc i).put 7 d (frameAddr i ||| 7)

theorem Paged.tableOf_newTable (h : Paged M m) (hi : Free m i) (d : Nat) :
    (m.newTable d i).tableOf = Function.update m.tableOf d (some i) :=
  (h.unlinked hi).install_tableOf (alloc_phys i) (by have := hi.lt; omega) d

/-- A new page table maps nothing. -/
theorem Paged.pte_newTable (h : Paged M m) (hi : Free m i) {d : Nat}
    (habs : m.tableOf d = none) {a : Nat} (ha : a < 1048576) :
    (m.newTable d i).pte a = m.pte a :=
  (h.unlinked hi).install_pte h.tables (alloc_phys i) (fun _ => rfl) (by have := hi.lt; omega)
    habs ha

theorem Paged.tableRefs_newTable (h : Paged M m) (hi : Free m i) {d : Nat} (hd : d < 1024)
    (habs : m.tableOf d = none) (f : Nat) :
    (m.newTable d i).tableRefs f = m.tableRefs f + if f = i then 1 else 0 := by
  have hcount := RefCount.count_update m.tableOf (Finset.mem_range.mpr hd) (some i) f
  rw [habs, if_neg (by simp)] at hcount
  rw [tableRefs, h.tableOf_newTable hi d, tableRefs]
  by_cases hf : f = i
  · rw [hf] at hcount ⊢
    rw [if_pos rfl] at hcount ⊢
    omega
  · rw [if_neg (fun e => hf (Option.some.inj e).symm)] at hcount
    rw [if_neg hf]
    omega

theorem Paged.frameOf_newTable (h : Paged M m) (hi : Free m i) {d : Nat}
    (habs : m.tableOf d = none) {a : Nat} (ha : a < 1048576) :
    (m.newTable d i).frameOf a = m.frameOf a := by
  rw [frameOf, h.pte_newTable hi habs ha, frameOf]

/-- A new page table, as moves: its frame is taken, and the page directory is written. -/
theorem Paged.space_newTable (h : Paged M m) (hi : Free m i) {d : Nat} (hd' : d < 1024)
    (habs : m.tableOf d = none) :
    (m.newTable d i).space M = (m.space M).applyAll zeroFrame
      [.reserve i, .poke 7 (Function.update ((m.alloc i).phys 7) d (frameAddr i ||| 7))] := by
  obtain ⟨hmain, hrefs, -, -⟩ := h.free hi
  ext1
  case map =>
    funext n
    by_cases hn : n ∈ pages
    · calc ((m.newTable d i).space M).map n = (m.newTable d i).frameOf n := space_map hn
        _ = m.frameOf n := h.frameOf_newTable hi habs (mem_pages.mp hn).2
        _ = (m.space M).map n := (space_map hn).symm
    · simp [space, hn, Space.applyAll, Space.apply]
  case writable =>
    funext n
    by_cases hn : n ∈ pages
    · rw [space_writable hn, h.pte_newTable hi habs (mem_pages.mp hn).2]
      exact (space_writable (M := M) hn).symm
    · simp [space, hn, Space.applyAll, Space.apply]
  case count => exact toNat_update _ _ _
  case base =>
    funext f
    show (if M.Has f then (m.newTable d i).tableRefs f else _)
      = Function.update (m.space M).base i 1 f
    rw [h.tableRefs_newTable hi hd' habs]
    by_cases hf : f = i
    · rw [hf, Function.update_self, if_pos hmain, if_pos rfl, hrefs]
    · rw [Function.update_of_ne hf, if_neg hf, Nat.add_zero]
      simp only [space]
  case data => rfl

theorem Paged.newTable (h : Paged M m) (hi : Free m i) {d : Nat} (hd : 16 ≤ d) (hd' : d < 1024)
    (habs : m.tableOf d = none) :
    ∃ v, Moves M m (m.newTable d i) [.reserve i, .poke 7 v] := by
  have hlt := hi.lt
  have hlo := M.lo_ge
  obtain ⟨hmain, hrefs, -, hpage⟩ := h.free hi
  have hT := h.tableOf_newTable hi d
  have hframe : ∀ a < 1048576, (m.newTable d i).frameOf a = m.frameOf a := fun a ha =>
    h.frameOf_newTable hi habs ha
  have hR := h.tableRefs_newTable hi hd' habs
  have h7i : 7 ≠ i := by
    have := Paged.has_ne M hmain
    omega
  have hno7 : ¬ M.Has 7 := fun e => by
    have := e.1
    omega
  have hallowed : (m.space M).AllAllowed zeroFrame pages
      [.reserve i, .poke 7 (Function.update ((m.alloc i).phys 7) d (frameAddr i ||| 7))] := by
    refine ⟨hi.count, ?_, trivial⟩
    show Function.update (m.space M).base i 1 7 ≠ 0
    rw [Function.update_of_ne h7i]
    simp [space, hno7, PAGING_PAGES]
  have hspace := h.space_newTable hi hd' habs
  refine ⟨_, ⟨?_, hallowed, hspace⟩⟩
  constructor
  case kernelTable =>
    intro e he
    rw [hT, Function.update_of_ne (by omega)]
    exact h.kernelTable e he
  case kernelPte => exact fun n hn => (h.pte_newTable hi habs (by omega)).trans (h.kernelPte n hn)
  case gap =>
    intro e he he'
    rw [hT, Function.update_of_ne (by omega)]
    exact h.gap e he he'
  case table =>
    intro e he he' t ht
    rw [hT] at ht
    by_cases hed : e = d
    · rw [hed, Function.update_self] at ht
      obtain rfl := Option.some.inj ht
      exact ⟨hmain, hlt⟩
    · rw [Function.update_of_ne hed] at ht
      exact h.table e he he' t ht
  case once =>
    intro f hf
    rw [hR]
    by_cases he : f = i
    · rw [if_pos he, he, hrefs]
    · rw [if_neg he, Nat.add_zero]
      exact h.once f hf
  case page =>
    intro n hn f hf
    rw [hframe n (mem_pages.mp hn).2] at hf
    obtain ⟨hlt', hmap⟩ := h.page n hn f hf
    refine ⟨hlt', fun hm => ?_⟩
    have hne : f ≠ i := fun e => hpage n hn (e ▸ hf)
    rw [hR, hmap hm, if_neg hne]
  case high =>
    intro f hf hm
    have hne : f ≠ i := by omega
    have hsame : (m.newTable d i).memMap f = m.memMap f := Function.update_of_ne hne _ _
    exact hsame.trans (h.high f hf hm)
  case safe =>
    rw [hspace]
    exact h.safe.applyAll hallowed

/-! ### Stores -/

/-- The invariant is about the counters and the page tables. -/
theorem Paged.congr (h : Paged M m) (hmap : m'.memMap = m.memMap) (hT : m'.tableOf = m.tableOf)
    (hpte : ∀ n < 1048576, m'.pte n = m.pte n) : Paged M m' := by
  have hframe : ∀ n < 1048576, m'.frameOf n = m.frameOf n := fun n hn => by
    rw [frameOf, hpte n hn, frameOf]
  have hR : m'.tableRefs = m.tableRefs := by
    funext f
    rw [tableRefs, hT, tableRefs]
  have hspace : m'.space M = { m.space M with data := m'.phys } := by
    ext1
    · funext n
      by_cases hn : n ∈ pages
      · calc (m'.space M).map n = m'.frameOf n := space_map hn
          _ = m.frameOf n := hframe n (mem_pages.mp hn).2
          _ = (m.space M).map n := (space_map hn).symm
      · simp [space, hn]
    · funext n
      by_cases hn : n ∈ pages
      · rw [space_writable hn, hpte n (mem_pages.mp hn).2]
        exact (space_writable (M := M) hn).symm
      · simp [space, hn]
    · simp only [space, hmap]
    · simp only [space, hR]
    · rfl
  constructor
  case kernelTable => exact fun d hd => hT ▸ h.kernelTable d hd
  case kernelPte => exact fun n hn => (hpte n (by omega)).trans (h.kernelPte n hn)
  case gap => exact fun d hd hd' => hT ▸ h.gap d hd hd'
  case table => exact fun d hd hd' t ht => h.table d hd hd' t (hT ▸ ht)
  case once =>
    intro f hf
    rw [hR]
    exact h.once f hf
  case page =>
    intro n hn f hf
    rw [Mappable, hR]
    exact h.page n hn f (hframe n (mem_pages.mp hn).2 ▸ hf)
  case high =>
    intro f hf hm
    rw [hmap]
    exact h.high f hf hm
  case safe =>
    rw [hspace]
    exact ⟨h.safe.counted, h.safe.alone⟩

/-- No page table lies in the kernel's own memory. -/
def TablesApart (m : Mem) : Prop := ∀ d < 1024, ∀ t, m.tableOf d = some t → ¬ IsKernelFrame t

theorem Paged.tablesApart (h : Paged M m) : TablesApart m := by
  rintro d hd t ht ⟨hlow, hdir⟩
  rcases Nat.lt_or_ge d 8 with h8 | h8
  · rw [h.kernelTable d h8] at ht
    have := Option.some.inj ht
    omega
  · rcases Nat.lt_or_ge d 16 with h16 | h16
    · rw [h.gap d h8 h16] at ht
      cases ht
    · have := Paged.has_ne M (h.table d h16 hd t ht).1
      omega

section
variable {f : Nat}

theorem tableOf_kernelStore (hf : IsKernelFrame f) (j : Nat) (v : Word) :
    (m.put f j v).tableOf = m.tableOf := by
  have hdir := hf.2
  exact tableOf_congr (put_phys_of_ne (by omega) _ _)

theorem TablesApart.kernelStore (h : TablesApart m) (hf : IsKernelFrame f) (j : Nat) (v : Word) :
    TablesApart (m.put f j v) := by
  rw [TablesApart, tableOf_kernelStore hf]
  exact h

/-- Stores of the kernel to its own memory change no page table. -/
theorem TablesApart.pte_kernelStore (h : TablesApart m) (hf : IsKernelFrame f) (j : Nat) (v : Word)
    {n : Nat} (hn : n < 1048576) : (m.put f j v).pte n = m.pte n := by
  have hdir := hf.2
  refine pte_congr (put_phys_of_ne (by omega) _ _) fun t ht => put_phys_of_ne ?_ _ _
  rintro rfl
  exact h _ (by omega) _ ht hf

theorem Paged.kernelStore (h : Paged M m) (hf : IsKernelFrame f) (j : Nat) (v : Word) :
    Paged M (m.put f j v) :=
  h.congr rfl (tableOf_kernelStore hf j v) fun _ hn => h.tablesApart.pte_kernelStore hf j v hn

end

/-- The frame of a writable page belongs to the main memory and is no page table. -/
theorem Paged.writable_frame (h : Paged M m) (hn : n ∈ pages) {f : Nat} (hf : m.frameOf n = some f)
    (hw : writable (m.pte n) = true) : M.Has f ∧ m.tableRefs f = 0 := by
  have hmap := (space_map (M := M) hn).trans hf
  have hone := h.safe.alone n hn f hmap ((space_writable hn).trans hw)
  have hcount := h.safe.counted f
  have hrefs : 1 ≤ (m.space M).refs pages f := RefCount.one_le_count hn hmap
  obtain ⟨hlt, hmapped⟩ := h.page n hn f hf
  by_cases hmain : M.Has f
  · exact ⟨hmain, hmapped hmain⟩
  · have hbase : (m.space M).base f = 1 := by simp [space, hmain, hlt]
    omega

theorem Paged.put (h : Paged M m) (hn : n ∈ pages) {f : Nat} (hf : m.frameOf n = some f)
    (hw : writable (m.pte n) = true) (j : Nat) (v : Word) :
    (∀ a < 1048576, (m.put f j v).pte a = m.pte a) ∧
      Moves M m (m.put f j v) [.store n f (Function.update (m.phys f) j v)] := by
  obtain ⟨hmain, hrefs⟩ := h.writable_frame hn hf hw
  have h7 := Paged.has_ne M hmain
  have hdir : (m.put f j v).phys 7 = m.phys 7 := put_phys_of_ne (by omega) _ _
  have hpte : ∀ a < 1048576, (m.put f j v).pte a = m.pte a := by
    intro a ha
    refine pte_congr hdir fun t ht => put_phys_of_ne ?_ _ _
    rintro rfl
    exact RefCount.count_eq_zero.mp hrefs _ (Finset.mem_range.mpr (by omega)) ht
  have hframe : ∀ a < 1048576, (m.put f j v).frameOf a = m.frameOf a := fun a ha => by
    rw [frameOf, hpte a ha, frameOf]
  refine ⟨hpte, h.moves (tableOf_congr hdir) (fun a ha => hpte a (by omega)) ?_
    (fun _ _ _ => rfl) ⟨⟨hn, (space_map hn).trans hf, (space_writable hn).trans hw⟩, trivial⟩ ?_⟩
  · intro a ha g hg
    exact h.page a ha g (hframe a (mem_pages.mp ha).2 ▸ hg)
  · ext1
    · funext a
      by_cases ha : a ∈ pages
      · calc ((m.put f j v).space M).map a = (m.put f j v).frameOf a := space_map ha
          _ = m.frameOf a := hframe a (mem_pages.mp ha).2
          _ = (m.space M).map a := (space_map ha).symm
      · simp [space, ha, Space.applyAll, Space.apply]
    · funext a
      by_cases ha : a ∈ pages
      · rw [space_writable ha, hpte a (mem_pages.mp ha).2]
        exact (space_writable (M := M) ha).symm
      · simp [space, ha, Space.applyAll, Space.apply]
    · rfl
    · simp only [space, tableRefs, tableOf_congr hdir, Space.applyAll, Space.apply]
    · rfl

end

end Mem

end Mks
