import Mks.Memory.Faults

set_option autoImplicit false

/-! # `share_page`

`sharePage_shared`: page `to` gets the frame of page `from`, which is mapped first if need be.
-/

namespace Mks.Mem

open CopyOnWrite Space

variable {M : MainMemory} {m m' : Mem}

section
variable {a b : Word} {k : Nat}

theorem TableFor.eq_of_table {d t : Nat} (hT : TableFor d m m') (ht : m.tableOf d = some t) :
    m' = m := by
  cases hT with
  | here _ => rfl
  | made habs hi =>
      rw [ht] at habs
      cases habs

theorem PageFor.eq_of_frame {n f : Nat} (hP : PageFor n m m') (hf : m.frameOf n = some f) :
    m' = m := by
  cases hP with
  | here _ => rfl
  | made habs hT hi =>
      rw [hf] at habs
      cases habs

theorem pageEntry_frame (h : m.tableOf (mapNr a / 1024) ≠ none) :
    present (m.pageEntry a) = (m.frameOf (mapNr a)).isSome := by
  rw [← present_entries, present_tableEntry, Option.isSome_iff_ne_none.mpr h, Bool.true_and]

/-- The second loop of `share_page`, when there is a page table. -/
theorem Paged.needFromPage_spec (h : Paged M m) (ha : a ≥ WINDOW) {t : Nat}
    (ht : m.tableOf (mapNr a / 1024) = some t) (hr : needFromPage k m a = some m') :
    PageFor (mapNr a) m m' := by
  induction k with
  | zero =>
      rw [needFromPage] at hr
      cases hr
  | succ k ih =>
      rw [needFromPage, pageEntry_frame (by rw [ht]; exact Option.some_ne_none t)] at hr
      cases hf : m.frameOf (mapNr a) with
      | some f =>
          rw [hf] at hr
          cases hr
          exact .here hf
      | none =>
          rw [hf] at hr
          obtain ⟨m₂, hm₂, hrest⟩ := Option.bind_eq_some_iff.mp hr
          obtain ⟨m₁, hT, hcase⟩ := h.doNoPage_spec ha hm₂
          obtain rfl := hT.eq_of_table ht
          rcases hcase with ⟨-, rfl⟩ | ⟨i, hi, rfl⟩
          · exact ih hrest
          · -- the page is mapped now, and the loop ends
            have hP : PageFor (mapNr a) m₁ (m₁.newPage (mapNr a) i) := .made hf (.here ht) hi
            have hq := hP.quiet h (mem_pages_of_ge ha)
            obtain ⟨f, hf'⟩ := hP.frame h (mem_pages_of_ge ha)
            cases k with
            | zero =>
                rw [needFromPage] at hrest
                cases hrest
            | succ k =>
                obtain ⟨t', ht'⟩ := tableOf_of_frameOf hf'
                rw [needFromPage, pageEntry_frame (by rw [ht']; exact Option.some_ne_none t'),
                  hf'] at hrest
                cases hrest
                exact hP

/-- Both loops of `share_page` over `from`. -/
theorem Paged.needFrom_spec (h : Paged M m) (ha : a ≥ WINDOW) {m₁ : Mem} {k' : Nat}
    (hr : needFromTable k m a = some m₁) (hr' : needFromPage k' m₁ a = some m') :
    PageFor (mapNr a) m m' := by
  have hn := mem_pages_of_ge ha
  have hn' := mem_pages.mp hn
  cases k with
  | zero =>
      rw [needFromTable] at hr
      cases hr
  | succ k =>
      rw [needFromTable] at hr
      cases ht : m.tableOf (mapNr a / 1024) with
      | some t =>
          rw [tableEntry_present ht, if_pos rfl] at hr
          cases hr
          exact h.needFromPage_spec ha ht hr'
      | none =>
          rw [tableEntry_absent ht, if_neg (by decide)] at hr
          obtain ⟨m₂, hm₂, hrest⟩ := Option.bind_eq_some_iff.mp hr
          obtain ⟨m₃, hT, hcase⟩ := h.doNoPage_spec ha hm₂
          have hq := hT.quiet h (by omega) (by omega)
          obtain ⟨t, ht₃⟩ := hT.table h
          have habs : m.frameOf (mapNr a) = none := frameOf_none ht
          -- there is a table after `do_no_page`, so its loop has ended
          have hend : ∀ {t' : Nat}, m₂.tableOf (mapNr a / 1024) = some t' → m₁ = m₂ := by
            intro t' ht'
            cases k with
            | zero =>
                rw [needFromTable] at hrest
                cases hrest
            | succ k =>
                rw [needFromTable, tableEntry_present ht', if_pos rfl] at hrest
                exact (Option.some.inj hrest).symm
          rcases hcase with ⟨hno, rfl⟩ | ⟨i, hi, rfl⟩
          · obtain rfl := hend ht₃
            have hP := hq.paged.needFromPage_spec ha ht₃ hr'
            cases hP with
            | here hf =>
                rw [hq.frameOf hn'.2 (by simp), habs] at hf
                cases hf
            | made _ hT' hi =>
                obtain rfl := hT'.eq_of_table ht₃
                exact absurd hno hi.not_none
          · have hP : PageFor (mapNr a) m (m₃.newPage (mapNr a) i) := .made habs hT hi
            obtain ⟨f, hf⟩ := hP.frame h hn
            obtain ⟨t', ht'⟩ := tableOf_of_frameOf hf
            obtain rfl := hend ht'
            have hq' := hP.quiet h hn
            rw [(hq'.paged.needFromPage_spec ha ht' hr').eq_of_frame hf]
            exact hP

/-- **`share_page`** of two pages from 64MB on. -/
theorem Paged.sharePage_spec (h : Paged M m) (ha : a ≥ WINDOW) (hb : b ≥ WINDOW)
    (hr : sharePage k m a b = some m') :
    ∃ m₁ m₂ f, PageFor (mapNr a) m m₁ ∧ TableFor (mapNr b / 1024) m₁ m₂ ∧
      m₁.frameOf (mapNr a) = some f ∧ m₂.frameOf (mapNr a) = some f ∧
      m' = m₂.share (mapNr a) (mapNr b) f := by
  have hn := mem_pages_of_ge ha
  have hn' := mem_pages.mp hn
  have hbn := mem_pages.mp (mem_pages_of_ge hb)
  rw [sharePage] at hr
  obtain ⟨m₀, hm₀, hr⟩ := Option.bind_eq_some_iff.mp hr
  obtain ⟨m₁, hm₁, hr⟩ := Option.bind_eq_some_iff.mp hr
  have hP := h.needFrom_spec ha hm₀ hm₁
  have hq₁ := hP.quiet h hn
  obtain ⟨f, hf⟩ := hP.frame h hn
  obtain ⟨t, ht⟩ := tableOf_of_frameOf hf
  obtain ⟨m₂, hm₂, he⟩ := Option.map_eq_some_iff.mp hr
  have hT := hq₁.paged.needTable_spec hb hm₂
  have hq₂ := hT.quiet hq₁.paged (by omega) (by omega)
  obtain ⟨t', ht'⟩ := hT.table hq₁.paged
  have hf₂ : m₂.frameOf (mapNr a) = some f := (hq₂.frameOf hn'.2 (by simp)).trans hf
  refine ⟨m₁, m₂, f, hP, hT, hf, hf₂, ?_⟩
  obtain ⟨t₂, ht₂⟩ := tableOf_of_frameOf hf₂
  have hdir : m₂.tableEntry a = m₁.tableEntry a := by
    rw [tableEntry_eq, tableEntry_eq, hT.dir hq₁.paged ht]
  have hload : m₂.load (pagePtr (m₁.tableEntry a) a) = m₂.pte (mapNr a) := by
    rw [← hdir, load_pagePtr ht₂]
  have hmap : mapNr (m₂.pte (mapNr a)) = f := (entryFrame_some hf₂).2
  simp only [hload, hmap] at he
  rw [if_pos ha, ← hdir, store_pagePtr (m₂.setMap f _) m₂ b _ rfl] at he
  have hlink : m₂.phys 7 = (m₂.link (mapNr a) (mapNr b) f).phys 7 :=
    ((hq₂.paged.tables.setMap f _).dir_putPte hbn.2 ht' _).symm
  exact he.symm.trans (store_pagePtr _ _ _ _ hlink)

end

/-! ## The effect -/

/-- The counter of the frame of a page does not overflow when it goes up. -/
def NoWrap (m : Mem) (a : Nat) : Prop := ∀ f, m.frameOf a = some f → m.memMap f ≠ 255

/-- Page `b` has been given the frame of page `a`. -/
structure Shared (M : MainMemory) (a b : Nat) (m m' : Mem) : Prop where
  paged : Paged M m'
  frame : ∃ f, m'.frameOf a = some f ∧ m'.frameOf b = some f
  contents : ∀ n ∈ pages, m.Own M n → n ≠ b → m'.contents n = m.contents n
  copied : m.Own M a → m'.contents b = m.contents a
  own : ∀ n ∈ pages, m.Own M n → (n = b → m.Own M a) → m'.Own M n
  pte : ∀ n < 1048576, n ≠ a → n ≠ b → m'.pte n = m.pte n
  /-- The frame that page `b` had before has lost a reference. -/
  slack : a ≠ b → ∀ f, m'.slack M f = m.slack M f + if m.frameOf b = some f then 1 else 0

section
variable {a b t f : Nat}

theorem Paged.shared_share (h : Paged M m) (ha : a ∈ pages) (hb : b ∈ pages)
    (ht : m.tableOf (b / 1024) = some t) (hf : m.frameOf a = some f) (hc : m.memMap f ≠ 255) :
    Shared M a b m (m.share a b f) := by
  obtain ⟨t', v, v', hm⟩ := h.share ha hb ht hf hc
  have hmap := (space_map (M := M) ha).trans hf
  have hframe : ∀ n < 1048576, (m.share a b f).frameOf n = if n = b then some f else m.frameOf n :=
    fun n hn => h.frameOf_share ha hb ht hf hn
  have hfa : (m.share a b f).frameOf a = some f := by
    rw [hframe a (mem_pages.mp ha).2]
    split
    · rfl
    · exact hf
  have hfb : (m.share a b f).frameOf b = some f := by
    rw [hframe b (mem_pages.mp hb).2, if_pos rfl]
  have hlinks : ∀ n, (n = b → m.Own M a) → (m.space M).OwnLinks zeroFrame n
      [.protect a, .link b f, .poke t v, .poke t' v'] := by
    intro n hn
    refine ⟨by simp, ?_, by simp, by simp, trivial⟩
    rintro g hg
    obtain ⟨rfl, rfl⟩ : b = n ∧ f = g := by simpa using hg
    exact hn rfl f hmap
  have hcontents : ∀ n ∈ pages, m.Own M n → (n = b → m.Own M a) →
      (m.share a b f).contents n = Function.update m.contents b (m.phys f) n := fun n hn ho hl =>
    hm.contents h hn ho (hlinks n hl)
  refine ⟨hm.paged, ⟨f, hfa, hfb⟩, ?_, ?_, ?_, ?_, ?_⟩
  · intro n hn ho hne
    rw [hcontents n hn ho fun e => absurd e hne, Function.update_of_ne hne]
  · intro ho
    -- both pages have the same frame now
    rw [contents_some hfb, ← contents_some hfa, hcontents a ha ho fun _ => ho, contents_some hf]
    by_cases hab : a = b
    · rw [hab, Function.update_self]
    · rw [Function.update_of_ne hab, contents_some hf]
  · intro n hn ho hl
    exact hm.own h hn ho (hlinks n hl)
  · intro n hn hna hnb
    rw [h.pte_share ha hb ht hf hn, if_neg (by tauto)]
  · intro hab g
    rw [hm.slack h]
    have hlost : (m.space M).lostAll zeroFrame g [.protect a, .link b f, .poke t v, .poke t' v']
        = if m.frameOf b = some g then 1 else 0 := by
      have hb' := space_map (M := M) (m := m) hb
      by_cases hg : m.frameOf b = some g <;> simp [lostAll, lost, apply, hb', hg]
    rw [hlost]

end

/-- **`share_page`** from 64MB on. -/
theorem Paged.sharePage_shared (h : Paged M m) {a b : Word} {k : Nat} (ha : a ≥ WINDOW)
    (hb : b ≥ WINDOW) (hc : m.NoWrap (mapNr a)) (hr : sharePage k m a b = some m') :
    Shared M (mapNr a) (mapNr b) m m' := by
  have hn := mem_pages_of_ge ha
  have hbn := mem_pages_of_ge hb
  have hn' := mem_pages.mp hn
  have hbn' := mem_pages.mp hbn
  obtain ⟨m₁, m₂, f, hP, hT, hf₁, hf₂, rfl⟩ := h.sharePage_spec ha hb hr
  have hq₁ := hP.quiet h hn
  have hq₂ := hT.quiet hq₁.paged (by omega) (by omega)
  obtain ⟨t, ht⟩ := hT.table hq₁.paged
  have hused : m₁.memMap f ≠ UNUSED := by
    intro e
    have hone := hq₁.paged.safe.one_le hn ((space_map (M := M) hn).trans hf₁)
    have hone : 1 ≤ (m₁.memMap f).toNat := hone
    rw [e] at hone
    exact absurd hone (by decide)
  have hcount : m₂.memMap f ≠ 255 := by
    rw [hT.memMap hused]
    cases habs : m.frameOf (mapNr a) with
    | some g =>
        obtain rfl := hP.eq_of_frame habs
        exact hc f hf₁
    | none =>
        obtain ⟨g, hg, hone, -⟩ := hP.counter h hn habs
        obtain rfl := Option.some.inj (hg.symm.trans hf₁)
        rw [hone]
        decide
  have hq : Quiet M {mapNr a} m m₂ := hq₁.trans (hq₂.mono (by simp))
  have hs := hq.paged.shared_share hn hbn ht hf₂ hcount
  refine ⟨hs.paged, hs.frame, ?_, ?_, ?_, ?_, ?_⟩
  · intro n hn ho hne
    rw [hs.contents n hn (hq.own n hn ho) hne, hq.contents n hn ho]
  · intro ho
    rw [hs.copied (hq.own _ hn ho), hq.contents _ hn ho]
  · intro n hn' ho hl
    exact hs.own n hn' (hq.own n hn' ho) fun e => hq.own _ hn (hl e)
  · intro n hn hna hnb
    rw [hs.pte n hn hna hnb, hq.pte n hn hna]
  · intro hab g
    rw [hs.slack hab, hq.slack, hq.frameOf hbn'.2 (Ne.symm hab)]

end Mks.Mem
