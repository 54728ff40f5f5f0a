import Mks.Memory.Paging
import Mks.Lib.CopyOnWrite

set_option autoImplicit false

/-! # Page directory and page tables as maps

Linear memory by page number: page `n` is the one at address `4096 * n`, its page-table entry is
`pte m n` and the frame it maps `frameOf m n`. The pointers `tablePtr` and `pagePtr` of the source
are reads and writes of these maps.
-/

namespace Mks

/-! ## Addresses -/

theorem mapNr_eq (a : Word) : mapNr a = a.toNat / 4096 := by
  rw [mapNr, BitVec.toNat_ushiftRight, Nat.shiftRight_eq_div_pow]

theorem wordNr_eq (a : Word) : wordNr a = a.toNat / 4 % 1024 := by
  rw [wordNr, BitVec.toNat_and, BitVec.toNat_ushiftRight, Nat.shiftRight_eq_div_pow]
  exact Nat.and_two_pow_sub_one_eq_mod _ 10

theorem mapNr_lt (a : Word) : mapNr a < 1048576 := by
  have := a.isLt
  rw [mapNr_eq]
  omega

theorem lt_window (a : Word) : a < WINDOW ↔ mapNr a < 16384 := by
  rw [BitVec.lt_def, mapNr_eq]
  show a.toNat < 67108864 ↔ _
  omega

/-- The frames of the memory map are page numbers. -/
theorem lt_frames {i : Nat} (hi : i < PAGING_PAGES) : i < 1048576 := hi.trans (by decide)

theorem mapNr_frameAddr {i : Nat} (hi : i < 1048576) : mapNr (frameAddr i) = i := by
  rw [mapNr_eq, frameAddr, BitVec.toNat_ofNat, Nat.shiftLeft_eq, Nat.mod_eq_of_lt (by omega)]
  omega

/-- Masking with `k` ones at position `s`. -/
theorem and_ones (x k s : Nat) : x &&& (2 ^ k - 1) <<< s = x / 2 ^ s % 2 ^ k * 2 ^ s := by
  rw [← Nat.shiftLeft_eq, ← Nat.shiftRight_eq_div_pow]
  refine Nat.eq_of_testBit_eq fun i => ?_
  rw [Nat.testBit_and, Nat.testBit_shiftLeft, Nat.testBit_shiftLeft, Nat.testBit_mod_two_pow,
    Nat.testBit_two_pow_sub_one, Nat.testBit_shiftRight]
  by_cases hi : s ≤ i
  · simp [hi, Nat.add_sub_cancel' hi, Bool.and_comm]
  · simp [hi]

theorem mapNr_or (e c : Word) (hc : c >>> 12 = 0) : mapNr (e ||| c) = mapNr e := by
  rw [mapNr, BitVec.ushiftRight_or_distrib, hc, mapNr]
  simp

theorem mapNr_and (e c : Word) (hc : c >>> 12 = 0xFFFFF) : mapNr (e &&& c) = mapNr e := by
  have hlt := mapNr_lt e
  rw [mapNr, BitVec.ushiftRight_and_distrib, hc, BitVec.toNat_and]
  show mapNr e &&& 2 ^ 20 - 1 = mapNr e
  rw [Nat.and_two_pow_sub_one_eq_mod, Nat.mod_eq_of_lt hlt]

namespace Mem

theorem mapNr_tablePtr (a : Word) :
    mapNr (tablePtr a) = 7 ∧ wordNr (tablePtr a) = mapNr a / 1024 := by
  have ha := a.isLt
  have h : (tablePtr a).toNat = 0x7000 + 4 * (a.toNat / 4194304) := by
    rw [tablePtr, BitVec.toNat_add, BitVec.toNat_and, BitVec.toNat_ushiftRight,
      Nat.shiftRight_eq_div_pow]
    show (0x7000 + (a.toNat / 2 ^ 20 &&& (2 ^ 10 - 1) <<< 2)) % 2 ^ 32 = _
    rw [and_ones]
    omega
  rw [mapNr_eq, wordNr_eq, mapNr_eq, h]
  omega

theorem mapNr_pagePtr (t a : Word) :
    mapNr (pagePtr t a) = mapNr t ∧ wordNr (pagePtr t a) = mapNr a % 1024 := by
  have ha := a.isLt
  have ht := t.isLt
  have h : (pagePtr t a).toNat = t.toNat / 4096 * 4096 + 4 * (a.toNat / 4096 % 1024) := by
    rw [pagePtr, BitVec.toNat_add, BitVec.toNat_and, BitVec.toNat_and, BitVec.toNat_ushiftRight,
      Nat.shiftRight_eq_div_pow]
    show ((t.toNat &&& (2 ^ 20 - 1) <<< 12) + (a.toNat / 2 ^ 10 &&& (2 ^ 10 - 1) <<< 2)) % 2 ^ 32
      = _
    rw [and_ones, and_ones]
    omega
  rw [mapNr_eq, wordNr_eq, mapNr_eq, mapNr_eq, h]
  omega

/-! ## Entries -/

theorem present_eq (e : Word) : present e = e.getLsbD 0 := by
  rw [present, BitVec.getLsbD, Nat.testBit_zero]
  refine decide_eq_decide.mpr ?_
  rw [Ne, ← BitVec.toNat_inj, BitVec.toNat_and]
  show ¬ e.toNat &&& 1 = 0 ↔ _
  rw [Nat.and_one_is_mod]
  omega

theorem writable_eq (e : Word) : writable e = e.getLsbD 1 := by
  rw [writable, BitVec.getLsbD, Nat.testBit_succ, Nat.testBit_zero]
  refine decide_eq_decide.mpr ?_
  rw [Ne, ← BitVec.toNat_inj, BitVec.toNat_and]
  show ¬ e.toNat &&& (2 ^ 1 - 1) <<< 1 = 0 ↔ _
  rw [and_ones]
  omega

theorem present_or_seven (e : Word) : present (e ||| 7) = true := by simp [present_eq]

theorem present_or_two (e : Word) : present (e ||| 2) = present e := by simp [present_eq]

theorem present_readOnly (e : Word) : present (e &&& ~~~2) = present e := by
  simp [present_eq]

theorem writable_or_seven (e : Word) : writable (e ||| 7) = true := by simp [writable_eq]

theorem writable_or_two (e : Word) : writable (e ||| 2) = true := by simp [writable_eq]

theorem writable_readOnly (e : Word) : writable (e &&& ~~~2) = false := by
  simp [writable_eq]

theorem mapNr_or_two (e : Word) : mapNr (e ||| 2) = mapNr e := mapNr_or _ _ (by decide)

theorem mapNr_or_seven (e : Word) : mapNr (e ||| 7) = mapNr e := mapNr_or _ _ (by decide)

theorem mapNr_readOnly (e : Word) : mapNr (e &&& ~~~2) = mapNr e :=
  mapNr_and _ _ (by decide)

theorem mapNr_mask (e : Word) : mapNr (e &&& 0xFFFFF000) = mapNr e :=
  mapNr_and _ _ (by decide)

/-- The frame that an entry of the directory or of a table refers to. -/
def entryFrame (e : Word) : Option Nat := if present e then some (mapNr e) else none

theorem entryFrame_zero : entryFrame 0 = none := rfl

theorem entryFrame_readOnly (e : Word) : entryFrame (e &&& ~~~2) = entryFrame e := by
  rw [entryFrame, present_readOnly, mapNr_readOnly, entryFrame]

theorem entryFrame_or_two (e : Word) : entryFrame (e ||| 2) = entryFrame e := by
  rw [entryFrame, present_or_two, mapNr_or_two, entryFrame]

theorem entryFrame_frameAddr {i : Nat} (hi : i < 1048576) :
    entryFrame (frameAddr i ||| 7) = some i := by
  rw [entryFrame, present_or_seven, mapNr_or_seven, mapNr_frameAddr hi, if_pos rfl]

theorem entryFrame_some {e : Word} {f : Nat} (h : entryFrame e = some f) :
    present e = true ∧ mapNr e = f := by
  unfold entryFrame at h
  split at h
  · exact ⟨by assumption, Option.some.inj h⟩
  · cases h

theorem present_eq_isSome (e : Word) : present e = (entryFrame e).isSome := by
  unfold entryFrame
  split <;> simp [*]

/-! ## The maps -/

variable {m m' : Mem}

/-- The page table for 1024 pages from page `1024 * d` on. -/
def tableOf (m : Mem) (d : Nat) : Option Nat := entryFrame (m.phys 7 d)

/-- The page-table entry of a page, `0` where there is no table. -/
def pte (m : Mem) (n : Nat) : Word :=
  match m.tableOf (n / 1024) with
  | some t => m.phys t (n % 1024)
  | none => 0

def frameOf (m : Mem) (n : Nat) : Option Nat := entryFrame (m.pte n)

theorem pte_some {n t : Nat} (h : m.tableOf (n / 1024) = some t) :
    m.pte n = m.phys t (n % 1024) := by
  rw [pte, h]

theorem pte_none {n : Nat} (h : m.tableOf (n / 1024) = none) : m.pte n = 0 := by rw [pte, h]

theorem frameOf_none {n : Nat} (h : m.tableOf (n / 1024) = none) : m.frameOf n = none := by
  rw [frameOf, pte_none h, entryFrame_zero]

/-- Write word `i` of frame `f`. -/
def put (m : Mem) (f i : Nat) (v : Word) : Mem :=
  { m with phys := Function.update m.phys f (Function.update (m.phys f) i v) }

def putPte (m : Mem) (n : Nat) (v : Word) : Mem := m.put (mapNr (m.phys 7 (n / 1024))) (n % 1024) v

theorem tableEntry_eq (m : Mem) (a : Word) : m.tableEntry a = m.phys 7 (mapNr a / 1024) := by
  rw [tableEntry, load, (mapNr_tablePtr a).1, (mapNr_tablePtr a).2]

theorem present_tableEntry (m : Mem) (a : Word) :
    present (m.tableEntry a) = (m.tableOf (mapNr a / 1024)).isSome := by
  rw [tableEntry_eq, tableOf, present_eq_isSome]

theorem load_pagePtr {m : Mem} {a : Word} {t : Nat} (h : m.tableOf (mapNr a / 1024) = some t) :
    m.load (pagePtr (m.tableEntry a) a) = m.pte (mapNr a) := by
  rw [load, (mapNr_pagePtr _ a).1, (mapNr_pagePtr _ a).2, pte_some h, tableEntry_eq,
    (entryFrame_some h).2]

theorem store_tablePtr (m : Mem) (a v : Word) :
    m.store (tablePtr a) v = m.put 7 (mapNr a / 1024) v := by
  rw [store, (mapNr_tablePtr a).1, (mapNr_tablePtr a).2, put]

theorem store_pagePtr_entry (m m' : Mem) (a v : Word)
    (h : m'.phys 7 (mapNr a / 1024) = m.phys 7 (mapNr a / 1024)) :
    m.store (pagePtr (m'.tableEntry a) a) v = m.putPte (mapNr a) v := by
  rw [store, (mapNr_pagePtr _ a).1, (mapNr_pagePtr _ a).2, putPte, put, tableEntry_eq, h]

theorem store_pagePtr (m m' : Mem) (a v : Word) (h : m'.phys 7 = m.phys 7) :
    m.store (pagePtr (m'.tableEntry a) a) v = m.putPte (mapNr a) v :=
  store_pagePtr_entry m m' a v (congrFun h _)

/-- The test of the processor: the page is mapped. -/
theorem present_entries (m : Mem) (a : Word) :
    (present (m.tableEntry a) && present (m.pageEntry a)) = (m.frameOf (mapNr a)).isSome := by
  rw [present_tableEntry, pageEntry]
  cases ht : m.tableOf (mapNr a / 1024) with
  | none =>
      rw [frameOf_none ht]
      rfl
  | some t => rw [load_pagePtr ht, frameOf, present_eq_isSome, Option.isSome_some, Bool.true_and]

theorem tableOf_of_frameOf {n f : Nat} (h : m.frameOf n = some f) :
    ∃ t, m.tableOf (n / 1024) = some t := by
  cases ht : m.tableOf (n / 1024) with
  | none =>
      rw [frameOf_none ht] at h
      cases h
  | some t => exact ⟨t, rfl⟩

theorem frameOf_pageEntry {a : Word} {f : Nat} (h : m.frameOf (mapNr a) = some f) :
    m.pageEntry a = m.pte (mapNr a) ∧ mapNr (m.pageEntry a) = f := by
  obtain ⟨t, ht⟩ := tableOf_of_frameOf h
  rw [pageEntry, load_pagePtr ht]
  exact ⟨rfl, (entryFrame_some h).2⟩

/-! ## The maps after a write -/

theorem tableOf_congr (h : m'.phys 7 = m.phys 7) : m'.tableOf = m.tableOf := by
  funext d
  rw [tableOf, tableOf, h]

theorem pte_congr {n : Nat} (h : m'.phys 7 = m.phys 7)
    (ht : ∀ t, m.tableOf (n / 1024) = some t → m'.phys t = m.phys t) : m'.pte n = m.pte n := by
  have hT := congrFun (tableOf_congr h) (n / 1024)
  cases hd : m.tableOf (n / 1024) with
  | none => rw [pte_none (hT.trans hd), pte_none hd]
  | some t => rw [pte_some (hT.trans hd), pte_some hd, ht t hd]

@[simp] theorem put_memMap (f i : Nat) (v : Word) : (m.put f i v).memMap = m.memMap := rfl

@[simp] theorem putPte_memMap (n : Nat) (v : Word) : (m.putPte n v).memMap = m.memMap := rfl

@[simp] theorem setMap_phys (i : Nat) (c : BitVec 8) : (m.setMap i c).phys = m.phys := rfl

theorem put_phys_of_ne {f g : Nat} (h : g ≠ f) (i : Nat) (v : Word) :
    (m.put f i v).phys g = m.phys g := Function.update_of_ne h _ _

theorem put_phys (f i : Nat) (v : Word) :
    (m.put f i v).phys f = Function.update (m.phys f) i v := Function.update_self ..

theorem tableOf_put (d : Nat) (v : Word) :
    (m.put 7 d v).tableOf = Function.update m.tableOf d (entryFrame v) := by
  funext d'
  rw [tableOf, put_phys]
  by_cases hd : d' = d
  · subst hd
    rw [Function.update_self, Function.update_self]
  · rw [Function.update_of_ne hd, Function.update_of_ne hd, tableOf]

/-- The page tables are different frames, and none of them is the page directory. -/
structure Tables (m : Mem) : Prop where
  ne : ∀ d < 1024, ∀ t, m.tableOf d = some t → t ≠ 7
  inj : ∀ d < 1024, ∀ d' < 1024, ∀ t, m.tableOf d = some t → m.tableOf d' = some t → d = d'

theorem Tables.congr (h : Tables m) (hT : m'.tableOf = m.tableOf) : Tables m' :=
  ⟨fun d hd t ht => h.ne d hd t (hT ▸ ht),
    fun d hd d' hd' t ht ht' => h.inj d hd d' hd' t (hT ▸ ht) (hT ▸ ht')⟩

theorem Tables.putPte_eq {n t : Nat} (ht : m.tableOf (n / 1024) = some t) (v : Word) :
    m.putPte n v = m.put t (n % 1024) v := by
  rw [putPte, (entryFrame_some ht).2]

theorem Tables.dir_putPte (h : Tables m) {n t : Nat} (hn : n < 1048576)
    (ht : m.tableOf (n / 1024) = some t) (v : Word) : (m.putPte n v).phys 7 = m.phys 7 := by
  rw [putPte_eq ht]
  exact put_phys_of_ne (h.ne _ (by omega) t ht).symm _ _

theorem Tables.tableOf_putPte (h : Tables m) {n t : Nat} (hn : n < 1048576)
    (ht : m.tableOf (n / 1024) = some t) (v : Word) : (m.putPte n v).tableOf = m.tableOf :=
  tableOf_congr (h.dir_putPte hn ht v)

theorem Tables.pte_putPte (h : Tables m) {n t : Nat} (hn : n < 1048576)
    (ht : m.tableOf (n / 1024) = some t) (v : Word) {a : Nat} (ha : a < 1048576) :
    (m.putPte n v).pte a = if a = n then v else m.pte a := by
  have hT := congrFun (h.tableOf_putPte hn ht v) (a / 1024)
  cases ha' : m.tableOf (a / 1024) with
  | none =>
      have hne : a ≠ n := by
        rintro rfl
        rw [ha'] at ht
        cases ht
      rw [pte_none (hT.trans ha'), pte_none ha', if_neg hne]
  | some t' =>
      rw [pte_some (hT.trans ha'), pte_some ha', putPte_eq ht]
      by_cases ht' : t' = t
      · subst ht'
        -- one table: one block of pages
        have hd := h.inj _ (by omega) _ (by omega) t' ha' ht
        rw [put_phys]
        by_cases hm : a % 1024 = n % 1024
        · rw [hm, Function.update_self, if_pos (by omega)]
        · rw [Function.update_of_ne hm, if_neg (fun e => hm (by rw [e]))]
      · have hne : a ≠ n := by
          rintro rfl
          rw [ha'] at ht
          exact ht' (Option.some.inj ht)
        rw [put_phys_of_ne ht', if_neg hne]

/-! ## Filling a frame -/

/-- A frame that is neither the page directory nor a page table. -/
structure Unlinked (m : Mem) (i : Nat) : Prop where
  ne_dir : i ≠ 7
  ne_table : ∀ d < 1024, m.tableOf d ≠ some i

theorem Unlinked.congr {i : Nat} (h : Unlinked m i) (hT : m'.tableOf = m.tableOf) :
    Unlinked m' i :=
  ⟨h.ne_dir, fun d hd => hT ▸ h.ne_table d hd⟩

section
variable {m₁ : Mem} {i : Nat} {x : Nat → Word}

theorem Unlinked.fill_dir (h : Unlinked m i) (hp : m₁.phys = Function.update m.phys i x) :
    m₁.phys 7 = m.phys 7 := by
  rw [hp, Function.update_of_ne h.ne_dir.symm]

theorem Unlinked.fill_tableOf (h : Unlinked m i) (hp : m₁.phys = Function.update m.phys i x) :
    m₁.tableOf = m.tableOf :=
  tableOf_congr (h.fill_dir hp)

theorem Unlinked.fill_pte (h : Unlinked m i) (hp : m₁.phys = Function.update m.phys i x) {n : Nat}
    (hn : n < 1048576) : m₁.pte n = m.pte n := by
  refine pte_congr (h.fill_dir hp) fun t ht => ?_
  have hne : t ≠ i := by
    rintro rfl
    exact h.ne_table _ (by omega) ht
  rw [hp, Function.update_of_ne hne]

theorem Unlinked.fill_frameOf (h : Unlinked m i) (hp : m₁.phys = Function.update m.phys i x)
    {n : Nat} (hn : n < 1048576) : m₁.frameOf n = m.frameOf n := by
  rw [frameOf, h.fill_pte hp hn, frameOf]

/-- The frame becomes the page table of block `d`. -/
theorem Unlinked.install_tableOf (h : Unlinked m i) (hp : m₁.phys = Function.update m.phys i x)
    (hi : i < 1048576) (d : Nat) :
    (m₁.put 7 d (frameAddr i ||| 7)).tableOf = Function.update m.tableOf d (some i) := by
  rw [tableOf_put, h.fill_tableOf hp, entryFrame_frameAddr hi]

/-- No other entry refers to the new page table. -/
theorem Unlinked.install_tables (h : Unlinked m i) (hT : Tables m)
    (hp : m₁.phys = Function.update m.phys i x) (hi : i < 1048576) (d : Nat) :
    Tables (m₁.put 7 d (frameAddr i ||| 7)) where
  ne e he t ht := by
    rw [h.install_tableOf hp hi] at ht
    by_cases hed : e = d
    · rw [hed, Function.update_self] at ht
      exact Option.some.inj ht ▸ h.ne_dir
    · rw [Function.update_of_ne hed] at ht
      exact hT.ne e he t ht
  inj e he e' he' t ht ht' := by
    rw [h.install_tableOf hp hi] at ht ht'
    by_cases hed : e = d
    · by_cases hed' : e' = d
      · rw [hed, hed']
      · rw [hed, Function.update_self] at ht
        rw [Function.update_of_ne hed', ← Option.some.inj ht] at ht'
        exact absurd ht' (h.ne_table e' he')
    · rw [Function.update_of_ne hed] at ht
      by_cases hed' : e' = d
      · rw [hed', Function.update_self] at ht'
        rw [← Option.some.inj ht'] at ht
        exact absurd ht (h.ne_table e he)
      · rw [Function.update_of_ne hed'] at ht'
        exact hT.inj e he e' he' t ht ht'

/-- A page table of zeros maps nothing. -/
theorem Unlinked.install_pte (h : Unlinked m i) (hT : Tables m)
    (hp : m₁.phys = Function.update m.phys i x) (hx : ∀ j, x j = 0) (hi : i < 1048576) {d : Nat}
    (habs : m.tableOf d = none) {a : Nat} (ha : a < 1048576) :
    (m₁.put 7 d (frameAddr i ||| 7)).pte a = m.pte a := by
  have hnew := congrFun (h.install_tableOf hp hi d) (a / 1024)
  by_cases had : a / 1024 = d
  · subst had
    rw [Function.update_self] at hnew
    rw [pte_some hnew, pte_none habs, put_phys_of_ne h.ne_dir, hp, Function.update_self]
    exact hx _
  · rw [Function.update_of_ne had] at hnew
    cases ht : m.tableOf (a / 1024) with
    | none => rw [pte_none (hnew.trans ht), pte_none ht]
    | some t =>
        have hne : t ≠ i := fun e => h.ne_table _ (by omega) (e ▸ ht)
        rw [pte_some (hnew.trans ht), pte_some ht, put_phys_of_ne (hT.ne _ (by omega) t ht), hp,
          Function.update_of_ne hne]

end

end Mem

end Mks
