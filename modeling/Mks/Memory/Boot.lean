import Mks.Memory.Returns

set_option autoImplicit false

/-! # Start-up

After `mem_init` no page from 64MB on is mapped, and the main memory is free: `memInit_fresh`.
`proc_init` then shares the first 640KB with two processes: `boot_booted`.
-/

namespace Mks

/-- The frames of the main memory, for a size of the RAM. -/
def mainFrames (memSize : Word) : MainMemory where
  lo := mapNr (Mem.mainMemory memSize).1
  hi := min (mapNr (Mem.mainMemory memSize).1
    + mapNr ((Mem.mainMemory memSize).2 - (Mem.mainMemory memSize).1)) PAGING_PAGES
  lo_ge := by
    simp only [Mem.mainMemory]
    split_ifs <;> decide
  lo_le := by
    simp only [Mem.mainMemory]
    split_ifs <;> decide
  hi_le := min_le_right _ _

namespace Mem

open CopyOnWrite Space

variable {M : MainMemory} {m m' : Mem}

/-- The boot loader leaves the rest of the page directory zero. -/
def Bare (image : Mem) : Prop := ∀ d, 8 ≤ d → d < 1024 → image.phys 7 d = 0

def emptyImage : Mem := ⟨fun _ => 0, fun _ _ => 0⟩

theorem emptyImage_bare : Bare emptyImage := fun _ _ _ => rfl

/-- No page from 64MB on is mapped, and the main memory is free. -/
structure Fresh (M : MainMemory) (m : Mem) : Prop where
  paged : Paged M m
  bare : ∀ n ∈ pages, m.tableOf (n / 1024) = none
  free : ∀ f, M.Has f → m.memMap f = UNUSED

theorem Fresh.unmapped (h : Fresh M m) {n : Nat} (hn : n ∈ pages) : m.frameOf n = none :=
  frameOf_none (h.bare n hn)

/-! ## `setup_paging` and `mem_init` -/

theorem identity_entry {i : Nat} (hi : i < 1048576) :
    (7 + 0x1000 * BitVec.ofNat 32 i : Word) = frameAddr i ||| 7 := by
  refine BitVec.eq_of_toNat_eq ?_
  rw [BitVec.toNat_add, BitVec.toNat_mul, BitVec.toNat_ofNat, BitVec.toNat_or, frameAddr,
    BitVec.toNat_ofNat, Nat.shiftLeft_eq, Nat.mod_eq_of_lt (a := i * 2 ^ 12) (by omega)]
  show (7 + 4096 * (i % 2 ^ 32) % 2 ^ 32) % 2 ^ 32 = i * 2 ^ 12 ||| 7
  rw [Nat.mul_comm i, ← Nat.two_pow_add_eq_or_of_lt (by decide)]
  omega

theorem entryFrame_identity {i : Nat} (hi : i < 1048576) :
    entryFrame (7 + 0x1000 * BitVec.ofNat 32 i) = some i := by
  rw [identity_entry hi, entryFrame_frameAddr hi]

theorem setupPaging_table (image : Mem) {d : Nat} (hd : d < 8) :
    (setupPaging image).tableOf d = some (8 + d) := by
  have h : (setupPaging image).phys 7 d = 7 + 0x1000 * BitVec.ofNat 32 (8 + d) := by
    show (if 7 = 7 ∧ d < 8 then _ else _) = _
    rw [if_pos ⟨rfl, hd⟩]
    interval_cases d <;> rfl
  rw [tableOf, h, entryFrame_identity (by omega)]

theorem setupPaging_page (image : Mem) {n : Nat} (hn : n < 8192) :
    (setupPaging image).pte n = frameAddr n ||| 7 := by
  have ht := setupPaging_table image (d := n / 1024) (by omega)
  have h : (setupPaging image).phys (8 + n / 1024) (n % 1024) = 7 + 0x1000 * BitVec.ofNat 32 n := by
    show (if 8 + n / 1024 = 7 ∧ _ then _ else if 8 ≤ 8 + n / 1024 ∧ 8 + n / 1024 < 16 ∧
      n % 1024 < 1024 then _ else _) = _
    rw [if_neg (by omega), if_pos (by omega), show (8 + n / 1024 - 8) * 1024 + n % 1024 = n by omega]
  rw [pte_some ht, h, identity_entry (by omega)]

theorem setupPaging_bare {image : Mem} (hb : Bare image) {d : Nat} (hd : 8 ≤ d) (hd' : d < 1024) :
    (setupPaging image).tableOf d = none := by
  have h : (setupPaging image).phys 7 d = image.phys 7 d := by
    show (if 7 = 7 ∧ d < 8 then _ else if 8 ≤ 7 ∧ _ then _ else _) = _
    rw [if_neg (by omega), if_neg (by omega)]
  rw [tableOf, h, hb d hd hd', entryFrame_zero]

/-- What `mem_init` leaves in `mem_map`. -/
theorem memInit_memMap {image : Mem} {memSize : Word}
    (h : memInit image (mainMemory memSize).1 (mainMemory memSize).2 = some m) :
    m.phys = image.phys ∧ ∀ k, m.memMap k = if (mainFrames memSize).Has k then UNUSED
      else if k < PAGING_PAGES then USED else image.memMap k := by
  rw [memInit] at h
  split at h
  · next hle =>
      obtain rfl := Option.some.inj h
      refine ⟨rfl, fun k => ?_⟩
      simp only [MainMemory.Has, mainFrames, min_eq_left hle]
  · cases h

theorem memInit_fresh {image : Mem} {memSize : Word} (hb : Bare image)
    (h : memInit (setupPaging image) (mainMemory memSize).1 (mainMemory memSize).2 = some m) :
    Fresh (mainFrames memSize) m := by
  obtain ⟨hphys, hmap⟩ := memInit_memMap h
  have htable : m.tableOf = (setupPaging image).tableOf := tableOf_congr (by rw [hphys])
  have hpte : ∀ n, m.pte n = (setupPaging image).pte n := fun n =>
    pte_congr (by rw [hphys]) fun t _ => by rw [hphys]
  have hframe : ∀ n, m.frameOf n = (setupPaging image).frameOf n := fun n => by
    rw [frameOf, hpte, frameOf]
  have hbare : ∀ n ∈ pages, m.tableOf (n / 1024) = none := by
    intro n hn
    have hn' := mem_pages.mp hn
    rw [htable]
    exact setupPaging_bare hb (by omega) (by omega)
  have hnone : ∀ n ∈ pages, m.frameOf n = none := fun n hn => frameOf_none (hbare n hn)
  have hrefs : ∀ f, (mainFrames memSize).Has f → m.tableRefs f = 0 := by
    intro f hf
    refine RefCount.count_eq_zero.mpr fun d hd ht => ?_
    have hd := Finset.mem_range.mp hd
    have h16 := Paged.has_ne _ hf
    rw [htable] at ht
    rcases Nat.lt_or_ge d 8 with h8 | h8
    · rw [setupPaging_table image h8] at ht
      have := Option.some.inj ht
      omega
    · rw [setupPaging_bare hb h8 hd] at ht
      cases ht
  have hfree : ∀ f, (mainFrames memSize).Has f → m.memMap f = UNUSED := fun f hf => by
    rw [hmap, if_pos hf]
  refine ⟨⟨?_, ?_, ?_, ?_, ?_, ?_, ?_, ⟨?_, ?_⟩⟩, hbare, hfree⟩
  · exact fun d hd => htable ▸ setupPaging_table image hd
  · exact fun n hn => (hpte n).trans (setupPaging_page image hn)
  · exact fun d hd hd' => htable ▸ setupPaging_bare hb hd (by omega)
  · intro d hd hd' t ht
    rw [htable, setupPaging_bare hb (by omega) hd'] at ht
    cases ht
  · intro f hf
    rw [hrefs f hf]
    exact Nat.zero_le 1
  · intro n hn f hf
    rw [hnone n hn] at hf
    cases hf
  · exact fun f _ hf => hfree f hf
  · intro f
    have hzero : (m.space (mainFrames memSize)).refs pages f = 0 := by
      refine RefCount.count_eq_zero.mpr fun n hn => ?_
      rw [space_map hn, hnone n hn]
      exact fun e => by cases e
    rw [hzero]
    show 0 + (if _ then m.tableRefs f else if f < PAGING_PAGES then 1 else 0)
      ≤ (m.memMap f).toNat
    split
    · next hf => rw [hrefs f hf]; exact Nat.zero_le _
    · next hf =>
        rw [hmap, if_neg hf]
        split
        · exact le_refl 1
        · exact Nat.zero_le _
  · intro n hn f hf
    rw [space_map hn, hnone n hn] at hf
    cases hf

/-! ## `proc_init` -/

/-- After start-up: every counter of the main memory is exact, only frames below it are mapped, and
the other entries are empty. -/
structure Booted (M : MainMemory) (m : Mem) : Prop where
  paged : Paged M m
  exact : ∀ f, M.Has f → m.slack M f = 0
  low : ∀ n ∈ pages, ∀ f, m.frameOf n = some f → ¬ M.Has f
  blank : ∀ n ∈ pages, m.frameOf n = none → m.pte n = 0

theorem Fresh.booted (h : Fresh M m) : Booted M m where
  paged := h.paged
  exact f hf := by
    have hcount : (m.space M).count f = 0 := by
      show (m.memMap f).toNat = 0
      rw [h.free f hf]
      rfl
    obtain ⟨hrefs, hbase, -⟩ := h.paged.safe.free hcount
    rw [slack, Space.slack, hcount, hrefs, hbase]
    rfl
  low n hn f hf := by
    rw [h.unmapped hn] at hf
    cases hf
  blank n hn _ := pte_none (h.bare n hn)

/-- A page of the kernel window is mapped, so its entry is only copied. -/
theorem Paged.sharePage_kernel (h : Paged M m) {a b : Word} {k : Nat} (ha : mapNr a < 8192)
    (hb : b ≥ WINDOW) (hr : sharePage k m a b = some m') :
    ∃ m₂, TableFor (mapNr b / 1024) m m₂ ∧ m₂.frameOf (mapNr a) = some (mapNr a) ∧
      m' = m₂.link (mapNr a) (mapNr b) (mapNr a) := by
  have hbn := mem_pages.mp (mem_pages_of_ge hb)
  have hf := h.kernelPage ha
  obtain ⟨t, ht⟩ := tableOf_of_frameOf hf
  cases k with
  | zero =>
      rw [sharePage, needFromTable] at hr
      cases hr
  | succ k =>
      rw [sharePage, needFromTable, tableEntry_present ht, if_pos rfl, Option.bind_some,
        needFromPage, pageEntry_frame (by rw [ht]; exact Option.some_ne_none t), hf,
        Option.isSome_some, if_pos rfl, Option.bind_some] at hr
      obtain ⟨m₂, hm₂, he⟩ := Option.map_eq_some_iff.mp hr
      have hT := h.needTable_spec hb hm₂
      have hq := hT.quiet h (by omega) (by omega)
      have hf₂ : m₂.frameOf (mapNr a) = some (mapNr a) :=
        (hq.frameOf (by omega) (by simp)).trans hf
      refine ⟨m₂, hT, hf₂, he.symm.trans ?_⟩
      obtain ⟨t₂, ht₂⟩ := tableOf_of_frameOf hf₂
      have hdir : m.tableEntry a = m₂.tableEntry a := by
        rw [tableEntry_eq, tableEntry_eq, hT.dir h ht]
      have hlow : ¬ a ≥ WINDOW := BitVec.not_le.mpr ((lt_window a).mpr (by omega))
      have hmap : mapNr (m₂.pte (mapNr a)) = mapNr a := (entryFrame_some hf₂).2
      simp only [hdir, load_pagePtr ht₂, hmap, if_neg hlow]
      exact store_pagePtr (m₂.setMap (mapNr a) _) m₂ b _ rfl

/-- Sharing a page of the kernel window during start-up. -/
theorem Booted.sharePage (h : Booted M m) {a b : Word} {k : Nat} (ha : mapNr a < M.lo)
    (hb : b ≥ WINDOW) (hc : m.memMap (mapNr a) ≠ 255) (hr : sharePage k m a b = some m') :
    Booted M m' ∧ ∀ f, ¬ M.Has f → f < PAGING_PAGES →
      m'.memMap f = if f = mapNr a then m.memMap f + 1 else m.memMap f := by
  have hlo := M.lo_le
  have hbn := mem_pages_of_ge hb
  have hbn' := mem_pages.mp hbn
  have hmain : ¬ M.Has (mapNr a) := fun e => by
    have := e.1
    omega
  have hlt : mapNr a < PAGING_PAGES := by
    unfold PAGING_PAGES
    omega
  -- frames outside the main memory are in use
  have hused : ∀ f, ¬ M.Has f → f < PAGING_PAGES → m.memMap f ≠ UNUSED := by
    intro f hf hf' e
    have hcount := h.paged.safe.counted f
    have hbase : (m.space M).base f = 1 := by simp [space, hf, hf']
    have hzero : (m.space M).count f = 0 := by
      show (m.memMap f).toNat = 0
      rw [e]
      rfl
    omega
  obtain ⟨m₂, hT, hf₂, rfl⟩ := h.paged.sharePage_kernel (by omega) hb hr
  have hq := hT.quiet h.paged (by omega) (by omega)
  obtain ⟨t, ht⟩ := hT.table h.paged
  have hc₂ : m₂.memMap (mapNr a) ≠ 255 := by
    rw [hT.memMap (hused _ hmain hlt)]
    exact hc
  obtain ⟨v, hm⟩ := hq.paged.link hbn ht hf₂ hc₂ hmain hlt
  refine ⟨⟨hm.paged, fun f hf => ?_, fun n hn f hf => ?_, fun n hn hno => ?_⟩, fun f hf hf' => ?_⟩
  · rw [hm.slack hq.paged, hq.slack, h.exact f hf]
    have hne : m₂.frameOf (mapNr b) ≠ some f := fun e =>
      h.low _ hbn f ((hq.frameOf hbn'.2 (by simp)).symm.trans e) hf
    simp [lostAll, lost, space_map hbn, hne]
  · rw [hq.paged.tables.frameOf_link hbn'.2 ht hf₂ (mem_pages.mp hn).2] at hf
    split at hf
    · exact Option.some.inj hf ▸ hmain
    · exact h.low n hn f ((hq.frameOf (mem_pages.mp hn).2 (by simp)).symm.trans hf)
  · have hn' := mem_pages.mp hn
    rw [hq.paged.tables.frameOf_link hbn'.2 ht hf₂ hn'.2] at hno
    split at hno
    · cases hno
    · next hne =>
        rw [hq.paged.tables.pte_link hbn'.2 ht hn'.2, if_neg hne, hq.pte n hn'.2 (by simp)]
        exact h.blank n hn ((hq.frameOf hn'.2 (by simp)).symm.trans hno)
  · rw [Mem.link, putPte_memMap]
    show Function.update m₂.memMap (mapNr a) (m₂.memMap (mapNr a) + 1) f = _
    rw [← hT.memMap (hused f hf hf')]
    split
    · next he => rw [he, Function.update_self]
    · next he => rw [Function.update_of_ne he]

theorem mapNr_next {a : Word} (h : mapNr a + 1 < 1048576) : mapNr (a + 0x1000) = mapNr a + 1 := by
  have ha := a.isLt
  rw [mapNr_eq] at h
  rw [mapNr_eq, mapNr_eq, BitVec.toNat_add]
  show (a.toNat + 4096) % 2 ^ 32 / 4096 = _
  omega

theorem ge_window {a : Word} (h : 16384 ≤ mapNr a) : a ≥ WINDOW := by
  refine BitVec.not_lt.mp fun hlt => ?_
  have := (lt_window a).mp hlt
  omega

/-- The loop of `share_multi_pages` over the first 640KB: `c` bounds the counters of the frames
that are still to come. -/
theorem Booted.sharePages {k c amount : Nat} {a b : Word} (h : Booted M m) (hlo : 160 ≤ M.lo)
    (hc : c < 255) (ha : mapNr a + amount ≤ 160) (hb : 16384 ≤ mapNr b)
    (hb' : mapNr b + amount < 1048576)
    (hcount : ∀ f < 160, (m.memMap f).toNat ≤ if f < mapNr a then c + 1 else c)
    (hr : sharePages k amount m a b = some m') :
    Booted M m' ∧ ∀ f < 160, (m'.memMap f).toNat ≤ if f < mapNr a + amount then c + 1 else c := by
  induction amount generalizing m a b with
  | zero =>
      rw [Mem.sharePages] at hr
      cases hr
      exact ⟨h, hcount⟩
  | succ amount ih =>
      rw [Mem.sharePages] at hr
      obtain ⟨m₁, hm₁, hrest⟩ := Option.bind_eq_some_iff.mp hr
      have hle := hcount (mapNr a) (by omega)
      rw [if_neg (by omega)] at hle
      have hne : m.memMap (mapNr a) ≠ 255 := by
        intro e
        rw [e] at hle
        have : (255 : BitVec 8).toNat = 255 := rfl
        omega
      obtain ⟨h₁, hmap⟩ := h.sharePage (by omega) (ge_window hb) hne hm₁
      have ha₁ := mapNr_next (a := a) (by omega)
      have hb₁ := mapNr_next (a := b) (by omega)
      have hcount₁ : ∀ f < 160,
          (m₁.memMap f).toNat ≤ if f < mapNr (a + 0x1000) then c + 1 else c := by
        intro f hf
        have hnf : ¬ M.Has f := fun e => by
          have := e.1
          omega
        have hold := hcount f hf
        rw [hmap f hnf (by unfold PAGING_PAGES; omega), ha₁]
        split
        · next he =>
            subst he
            rw [toNat_add_one hne, if_pos (by omega)]
            omega
        · next he =>
            split at hold
            · rw [if_pos (by omega)]
              exact hold
            · rw [if_neg (by omega)]
              exact hold
      obtain ⟨h', hcount'⟩ := ih h₁ (by omega) (by omega) (by omega) hcount₁ hrest
      refine ⟨h', fun f hf => ?_⟩
      have := hcount' f hf
      rw [ha₁] at this
      rw [show mapNr a + (amount + 1) = mapNr a + 1 + amount by omega]
      exact this

/-- **After start-up.** -/
theorem boot_booted {n : Nat} {image : Mem} {memSize : Word} (hb : Bare image)
    (h : boot n image memSize = some m) : Booted (mainFrames memSize) m := by
  obtain ⟨m₀, h₀, hshare⟩ := Option.bind_eq_some_iff.mp h
  have hfresh := memInit_fresh hb h₀
  have hlo := (mainFrames memSize).lo_ge
  have hcount : ∀ f < 160, (m₀.memMap f).toNat ≤ if f < mapNr 0 then 2 else 1 := by
    intro f hf
    have hno : ¬ (mainFrames memSize).Has f := fun e => by
      have := e.1
      omega
    rw [(memInit_memMap h₀).2, if_neg hno, if_pos (by unfold PAGING_PAGES; omega)]
    exact le_refl 1
  -- both processes in turn
  have hrange : List.range' 1 (NR_INIT_PROCS - 1) = [1, 2] := rfl
  simp only [procShare, hrange, List.foldlM_cons, List.foldlM_nil, Option.bind_eq_bind,
    Option.bind_eq_some_iff, Option.map_eq_some_iff, Option.pure_def, Option.some.injEq] at hshare
  obtain ⟨m₁, ⟨r₁, h₁, rfl⟩, m₂, ⟨r₂, h₂, rfl⟩, rfl⟩ := hshare
  have hmulti : ∀ {m : Mem} {b : Word} {r : Int × Mem}, b &&& 0xFFF = 0 →
      shareMultiPages n m 0 b 160 = some r → Mem.sharePages n 160 m 0 b = some r.2 := by
    intro m b r hb' hr
    rw [shareMultiPages, if_neg (by rw [hb']; decide)] at hr
    obtain ⟨m', hm', rfl⟩ := Option.map_eq_some_iff.mp hr
    exact hm'
  have hzero : mapNr 0 = 0 := rfl
  obtain ⟨hb₁, hcount₁⟩ := hfresh.booted.sharePages (c := 1) hlo (by decide) (by decide)
    (by decide) (by decide) hcount (hmulti (by decide) h₁)
  obtain ⟨hb₂, -⟩ := hb₁.sharePages (c := 2) hlo (by decide) (by decide) (by decide) (by decide)
    (fun f hf => by
      have := hcount₁ f hf
      rw [if_pos (by omega)] at this
      rw [if_neg (by omega)]
      exact this) (hmulti (by decide) h₂)
  exact hb₂

/-- A machine with 16MB, after start-up. The 4MB blocks 17 and 33 are not in use, and page 7 of
the first process is the page directory. -/
theorem boot_returns : ∃ m, boot 20 emptyImage 0x1000000 = some m ∧ Frees m 7 ∧
    m.tableOf 17 = none ∧ m.tableOf 33 = none ∧ m.frameOf 16391 = some 7 := by
  have hex : (boot 20 emptyImage 0x1000000).map (fun m =>
      ([m.memMap 1030, m.memMap 1031, m.memMap 1032, m.memMap 1033, m.memMap 1034, m.memMap 1035,
        m.memMap 1036], [m.tableOf 17, m.tableOf 33], m.frameOf 16391))
      = some ([0, 0, 0, 0, 0, 0, 0], [none, none], some 7) := by decide +kernel
  obtain ⟨m, hm, he⟩ := Option.map_eq_some_iff.mp hex
  simp only [Prod.mk.injEq, List.cons.injEq, and_true] at he
  obtain ⟨⟨h0, h1, h2, h3, h4, h5, h6⟩, ⟨ht, ht'⟩, hf⟩ := he
  refine ⟨m, hm, ?_, ht, ht', hf⟩
  have hsub : Finset.Ico 1030 1037 ⊆ (Finset.range 8192).filter fun i => m.memMap i = UNUSED := by
    intro i hi
    obtain ⟨hlo, hhi⟩ := Finset.mem_Ico.mp hi
    refine Finset.mem_filter.mpr ⟨Finset.mem_range.mpr (by omega), ?_⟩
    interval_cases i <;> assumption
  exact Finset.card_le_card hsub

end Mem

end Mks
