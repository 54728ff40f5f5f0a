import Mks.Memory.Mmu
import Mks.Memory.Reached
import Mks.Memory.Private

set_option autoImplicit false

/-! # The functions of `kernel/memory.c` under address translation

Whenever a function of `Paging.lean` returns, the processor of `Mmu.lean` does the same thing with
the same result, and the function leaves nothing stale: no access of the kernel faults where it must
not, none depends on a replaced entry, and `invalidate()` is called wherever it has to be
(`calls_translated`).
-/

namespace Mks.Mmu

open Mem

variable {m m' : Mem} {hi : Nat} {a : Word} {k : Nat}

/-! ## The pages the kernel uses -/

/-- The kernel reaches the page directory. -/
theorem frameOf_tablePtr (h : Window hi m) (a : Word) :
    m.frameOf (mapNr (tablePtr a)) = some (mapNr (tablePtr a)) := by
  rw [(mapNr_tablePtr a).1]
  exact h.kernelPage 7 (by decide)

/-- The kernel reaches the page tables. -/
theorem frameOf_pagePtr (h : Window hi m) (ht : m.tableOf (mapNr a / 1024) ≠ none) :
    m.frameOf (mapNr (pagePtr (m.tableEntry a) a)) =
      some (mapNr (pagePtr (m.tableEntry a) a)) := by
  obtain ⟨t, ht⟩ := Option.ne_none_iff_exists'.mp ht
  have hnr : mapNr (m.tableEntry a) = t := by
    rw [tableEntry_eq]
    exact (entryFrame_some ht).2
  rw [(mapNr_pagePtr _ a).1, hnr]
  exact (h.reached _ (block_lt a) t ht).2

theorem load_tablePtr (h : Window hi m) (a : Word) :
    (settled m).load (tablePtr a) = some (m.tableEntry a) :=
  settled_load (frameOf_tablePtr h a)

theorem load_pageEntry (h : Window hi m) (ht : m.tableOf (mapNr a / 1024) ≠ none) :
    (settled m).load (pagePtr (m.tableEntry a) a) = some (m.pageEntry a) :=
  settled_load (frameOf_pagePtr h ht)

/-- The entry of a page is written through its page table. -/
theorem store_pageEntry (h : Window hi m) (ht : m.tableOf (mapNr a / 1024) ≠ none) (v : Word) :
    ((settled m).store (pagePtr (m.tableEntry a) a) v).map invalidate =
      some (settled (m.putPte (mapNr a) v)) := by
  rw [settled_store (frameOf_pagePtr h ht), store_pagePtr _ _ _ _ rfl]

/-! ## `get_free_page` -/

section
variable {i : Nat}

/-- The clearing of a free frame replaces no entry. -/
theorem settled_clear (hu : Unlinked m i) (hlt : i < PAGING_PAGES) (hf : m.frameOf i = some i) :
    (settled m).clear i = some (settled (m.clear i)) := by
  have hnr := mapNr_frameAddr (i := i) (lt_frames hlt)
  rw [clear, settled_frame, hnr, hf, Option.map_some]
  exact congrArg some (settled_change fun n hn => hu.fill_pte rfl hn)

theorem touch_settled (h : Window hi m) (hlt : i < PAGING_PAGES) (hcov : m.Covered i) (k : Nat) :
    touch (k + 3) (settled m) i = some (settled (m.reach i)) := by
  have hnr := mapNr_frameAddr (i := i) (lt_frames hlt)
  have hwin : frameAddr i < WINDOW := (lt_window _).mpr (by rw [hnr]; exact hlt)
  have hcov' : m.tableOf (mapNr (frameAddr i) / 1024) ≠ none := by
    rw [hnr]
    exact hcov
  rw [touch, settled_mem, hnr, Mem.reach]
  split_ifs
  · rfl
  · have hp : present (m.tableEntry (frameAddr i)) = true := by
      rw [present_tableEntry]
      exact Option.isSome_iff_ne_none.mpr hcov'
    rw [doNoPage, needTable, load_tablePtr h, Option.bind_some, if_pos hp, Option.bind_some,
      load_tablePtr h, Option.bind_some]
    simp only [if_pos hwin]
    rw [store_pageEntry h hcov']
    rfl

theorem getFreePage_settled (h : Window hi m) (hf : m.firstFree = some i) (hcov : m.Covered i)
    (k : Nat) : getFreePage (k + 4) (settled m) = some (frameAddr i, settled (m.grab i)) := by
  obtain ⟨hlt, hfree, -⟩ := firstFree_some hf
  have hlt' : i < 16384 := hlt
  -- the loop that clears the frame, and the end of the function
  have hend : ((touch (k + 3) (settled m) i).bind fun c => (c.clear i).map fun c =>
      (frameAddr i, c.setMap i 1)) = some (frameAddr i, settled (m.grab i)) := by
    have hu := h.reach_unlinked hfree hlt hcov
    have hself : (m.reach i).frameOf i = some i := by
      rw [h.reach_frameOf hlt hcov (lt_frames hlt), if_pos rfl]
    rw [touch_settled h hlt hcov, Option.bind_some, settled_clear hu hlt hself]
    rfl
  rw [getFreePage, settled_mem, hf]
  show (if i &&& 0x3FF = 0x3FD then _ else _) = _
  split
  · next h3 =>
      have hmod : i % 1024 = 1021 := by
        rw [← h3]
        exact (Nat.and_two_pow_sub_one_eq_mod i 10).symm
      obtain ⟨t, ht⟩ := Option.ne_none_iff_exists'.mp hcov
      have hsame : (m.setMap i 1).tableOf (mapNr (frameAddr (i + 2)) / 1024) = some t := by
        rw [mapNr_frameAddr (by omega), show (i + 2) / 1024 = i / 1024 by omega]
        exact ht
      have hset : Window hi (m.setMap i 1) := h.setMap (fun _ => by decide) hcov
      rw [settled_setMap, createPageTable, load_tablePtr hset, Option.bind_some,
        tableEntry_present hsame, if_pos rfl, Option.bind_some]
      show (if (0 : Int) = -1 then _ else _) = _
      rw [if_neg (by decide), settled_setMap, setMap_unused hfree]
      exact hend
  · exact hend

theorem getFreePage_full (hf : m.firstFree = none) (k : Nat) :
    getFreePage (k + 1) (settled m) = some (0, settled m) := by
  rw [getFreePage, settled_mem, hf]

/-- **`get_free_page`** -/
theorem getFreePage_translated (h : Window hi m) {p : Word}
    (hr : Mem.getFreePage k m = some (p, m')) (j : Nat) :
    getFreePage (j + 4) (settled m) = some (p, settled m') := by
  cases h.getFreePage_got hr with
  | noFrame hf => exact getFreePage_full hf (j + 3)
  | frame hf hcov _ => exact getFreePage_settled h hf hcov j

end

/-! ## Page tables and pages -/

/-- **`create_page_table`** -/
theorem createPageTable_translated (h : Window hi m) {r : Int}
    (hr : Mem.createPageTable k m a = some (r, m')) (j : Nat) :
    createPageTable (j + 5) (settled m) a = some (r, settled m') := by
  cases k with
  | zero =>
      rw [Mem.createPageTable] at hr
      cases hr
  | succ k =>
      rw [Mem.createPageTable] at hr
      rw [createPageTable, load_tablePtr h, Option.bind_some]
      split_ifs at hr ⊢ with hp
      · cases hr
        rfl
      · obtain ⟨⟨page, m₁⟩, hpage, he⟩ := Option.map_eq_some_iff.mp hr
        have h₁ := (h.getFreePage_got hpage).window h
        rw [getFreePage_translated h hpage, Option.bind_some]
        dsimp only at he ⊢
        split_ifs at he ⊢ with h0
        · cases he
          rfl
        · cases he
          have hs := settled_store (frameOf_tablePtr h₁ a) (page ||| 7)
          obtain ⟨c, hc, hi⟩ := Option.map_eq_some_iff.mp hs
          rw [hc, Option.map_some, hi]

/-- **The loop around `create_page_table`** -/
theorem needTable_translated (h : Window hi m) (hr : Mem.needTable k m a = some m') (j : Nat) :
    needTable (j + k + 5) (settled m) a = some (settled m') := by
  induction k generalizing m with
  | zero =>
      rw [Mem.needTable] at hr
      cases hr
  | succ k ih =>
      rw [Mem.needTable] at hr
      rw [show j + (k + 1) + 5 = (j + k + 5) + 1 by omega, needTable, load_tablePtr h,
        Option.bind_some]
      split_ifs at hr ⊢ with hp
      · cases hr
        rfl
      · obtain ⟨⟨r, m₁⟩, hm₁, hrest⟩ := Option.bind_eq_some_iff.mp hr
        have h₁ : Window hi m₁ := by
          rcases h.createPageTable_result hm₁ with ⟨-, rfl, -, -⟩ | hT
          · exact h
          · exact hT.window h (block_lt a)
        rw [createPageTable_translated h hm₁ (j + k), Option.bind_some]
        exact ih h₁ hrest

/-- **`do_no_page`** -/
theorem doNoPage_translated (h : Window hi m) (hr : Mem.doNoPage k m a = some m') (j : Nat) :
    doNoPage (j + k + 5) (settled m) a = some (settled m') := by
  cases k with
  | zero =>
      rw [Mem.doNoPage] at hr
      cases hr
  | succ k =>
      rw [Mem.doNoPage] at hr
      obtain ⟨m₁, hm₁, hrest⟩ := Option.bind_eq_some_iff.mp hr
      have hT := h.needTable_result hm₁
      have h₁ := hT.window h (block_lt a)
      have ht := hT.table h
      rw [show j + (k + 1) + 5 = (j + k + 5) + 1 by omega, doNoPage,
        needTable_translated h hm₁, Option.bind_some, load_tablePtr h₁, Option.bind_some]
      dsimp only at hrest ⊢
      split_ifs at hrest ⊢ with ha
      · cases hrest
        rw [store_pageEntry h₁ ht, store_pagePtr _ _ _ _ rfl]
      · obtain ⟨⟨p, m₂⟩, hp, he⟩ := Option.map_eq_some_iff.mp hrest
        rw [getFreePage_translated h₁ hp (j + k + 1), Option.bind_some]
        dsimp only at he ⊢
        split_ifs at he ⊢ with h0
        · cases he
          rfl
        · cases he
          have hg := h₁.getFreePage_got hp
          have h₂ := hg.window h₁
          -- the pointer to the entry is from before the call
          have hdir : m₂.phys 7 = m₁.phys 7 := by
            cases hg with
            | noFrame _ => rfl
            | frame hf hcov _ =>
                obtain ⟨hlt, hun, -⟩ := firstFree_some hf
                exact h₁.grab_dir hun hlt hcov
          have hentry : m₁.tableEntry a = m₂.tableEntry a := by
            rw [tableEntry_eq, tableEntry_eq, hdir]
          rw [hentry, store_pageEntry h₂ (by rw [tableOf_congr hdir]; exact ht),
            store_pagePtr _ _ _ _ rfl]

/-! ## Write faults -/

variable {b : Word} {f : Nat}

/-- Whether an entry is used that a store before the reload of `cr3` may have replaced. -/
theorem change_frame {n : Nat} (h : m'.pte n = m.pte n) :
    ((settled m).change m').frame n = m'.frameOf n := by
  have hst : ((settled m).change m').stale n = [] := if_neg fun hn => hn.2.2 h
  show (m'.frameOf n).filter (fun f => (((settled m).change m').stale n).all _) = _
  rw [hst]
  cases m'.frameOf n <;> rfl

/-- `copy_page` for a frame that is mapped and one that has just been given away. -/
theorem copyPage_settled {x y : Word} {g : Nat} (hx : m.frameOf (mapNr x) = some (mapNr x))
    (hy : m.frameOf (mapNr y) = some (mapNr y)) (hg : mapNr y = g) (hu : Unlinked m g) :
    (settled m).copyPage x y = some (settled (m.copyPage x y)) := by
  rw [copyPage, settled_frame, hx, Option.bind_some, settled_frame, hy, Option.map_some]
  refine congrArg some (settled_change fun n hn => ?_)
  exact hu.fill_pte (x := m.phys (mapNr x)) (by rw [← hg]; rfl) hn

/-- **`do_wp_page`** -/
theorem doWpPage_translated (h : Window hi m) (hR : m.Reached)
    (hf : m.frameOf (mapNr a) = some f) (hr : Mem.doWpPage k m a = some m') (j : Nat) :
    doWpPage (j + 4) (settled m) a = some (settled m') := by
  have htne := covered_of_frameOf hf
  obtain ⟨t, ht⟩ := tableOf_of_frameOf hf
  have hnr : mapNr (m.pte (mapNr a)) = f := (entryFrame_some hf).2
  have hff := hR _ (mapNr_lt a) f hf
  obtain ⟨hfp, hfc⟩ := h.page _ (mapNr_lt a) f hf
  have hentry : m.pageEntry a = m.pte (mapNr a) := load_pagePtr ht
  rw [doWpPage, load_tablePtr h, Option.bind_some]
  dsimp only
  rw [load_pageEntry h htne, Option.bind_some]
  simp only [Mem.doWpPage, load_pagePtr ht, mapNr_mask, hnr] at hr
  simp only [hentry, settled_mem, mapNr_mask, hnr]
  split_ifs at hr ⊢ with hone
  · cases hr
    rw [store_pageEntry h htne, store_pagePtr _ _ _ _ rfl]
  · obtain ⟨⟨p, m₁⟩, hp, he⟩ := Option.map_eq_some_iff.mp hr
    rw [getFreePage_translated h hp, Option.bind_some]
    cases h.getFreePage_got hp with
    | noFrame hno =>
        cases he
        rfl
    | @frame i hi' hcov hne =>
        obtain ⟨hlt, hun, -⟩ := firstFree_some hi'
        have hnri := mapNr_frameAddr (i := i) (lt_frames hlt)
        simp only [if_neg hne] at he ⊢
        obtain ⟨hcopy, hdir⟩ : Window hi (m.duplicate f i (m.pte (mapNr a) &&& 0xFFFFF000)) ∧
            (m.duplicate f i (m.pte (mapNr a) &&& 0xFFFFF000)).phys 7 = m.phys 7 :=
          h.copy hun hlt hcov hfc hone _
        have hgf : ∀ n < 1048576, (m.grab i).frameOf n = if n = i then some i else m.frameOf n :=
          fun n hn => h.grab_frameOf hun hlt hcov hn
        -- the old frame is mapped for the kernel, and so is the new one
        have hold : (m.grab i).frameOf (mapNr (m.pte (mapNr a) &&& 0xFFFFF000)) =
            some (mapNr (m.pte (mapNr a) &&& 0xFFFFF000)) := by
          rw [mapNr_mask, hnr, hgf f (lt_frames hfp)]
          split_ifs with hfi
          · rw [hfi]
          · exact hff
        have hnew : (m.grab i).frameOf (mapNr (frameAddr i)) = some (mapNr (frameAddr i)) := by
          rw [hnri, hgf i (lt_frames hlt), if_pos rfl]
        have hset := copyPage_settled (m := (m.grab i).setMap f ((m.grab i).memMap f - 1)) hold hnew
          hnri ((h.unlinked hun).congr (h.grab_tableOf hun hlt hcov))
        have hstore := store_pageEntry hcopy (a := a) (by rw [tableOf_congr hdir]; exact htne)
          (frameAddr i ||| 7)
        rw [tableEntry_eq, hdir, ← tableEntry_eq, ← store_pagePtr _ _ _ _ hdir.symm] at hstore
        rw [settled_setMap, settled_mem, hset, Option.bind_some, ← he]
        exact hstore

/-! ## Sharing -/

/-- **The loops around `do_no_page`** -/
theorem needFromTable_translated (h : Window hi m) (hr : Mem.needFromTable k m a = some m')
    (j : Nat) : needFromTable (j + k + 5) (settled m) a = some (settled m') := by
  induction k generalizing m with
  | zero =>
      rw [Mem.needFromTable] at hr
      cases hr
  | succ k ih =>
      rw [Mem.needFromTable] at hr
      rw [show j + (k + 1) + 5 = (j + k + 5) + 1 by omega, needFromTable, load_tablePtr h,
        Option.bind_some]
      split_ifs at hr ⊢ with hp
      · cases hr
        rfl
      · obtain ⟨m₁, hm₁, hrest⟩ := Option.bind_eq_some_iff.mp hr
        rw [doNoPage_translated h hm₁, Option.bind_some]
        exact ih ((h.doNoPage_result hm₁).window_kept h) hrest

theorem needFromPage_translated (h : Window hi m) (ht : m.tableOf (mapNr a / 1024) ≠ none)
    (hr : Mem.needFromPage k m a = some m') (j : Nat) :
    needFromPage (j + k + 5) (settled m) a = some (settled m') := by
  induction k generalizing m with
  | zero =>
      rw [Mem.needFromPage] at hr
      cases hr
  | succ k ih =>
      rw [Mem.needFromPage] at hr
      rw [show j + (k + 1) + 5 = (j + k + 5) + 1 by omega, needFromPage, load_tablePtr h,
        Option.bind_some, load_pageEntry h ht, Option.bind_some]
      split_ifs at hr ⊢ with hp
      · cases hr
        rfl
      · obtain ⟨m₁, hm₁, hrest⟩ := Option.bind_eq_some_iff.mp hr
        have hH := h.doNoPage_result hm₁
        rw [doNoPage_translated h hm₁, Option.bind_some]
        exact ih (hH.window_kept h) (hH.table h) hrest

/-- The entries of both pages are written before `cr3` is reloaded. The second store goes through
the entry of a page of the window, which the first one does not replace. -/
theorem store_both (h : Window hi m) (hb : ¬ b < WINDOW)
    (ht : m.tableOf (mapNr a / 1024) ≠ none) (htb : m.tableOf (mapNr b / 1024) ≠ none) (v : Word) :
    (((settled m).store (pagePtr (m.tableEntry b) b) v).bind fun c =>
      (if a ≥ WINDOW then c.store (pagePtr (m.tableEntry a) a) v else some c).map invalidate) =
      some (settled (if a ≥ WINDOW then (m.putPte (mapNr b) v).putPte (mapNr a) v
        else m.putPte (mapNr b) v)) := by
  have hge := window_le hb
  rw [store_of_frame (by rw [settled_frame, frameOf_pagePtr h htb]), Option.bind_some, settled_mem,
    store_pagePtr _ _ _ _ rfl]
  split_ifs with ha
  · obtain ⟨t, ht⟩ := Option.ne_none_iff_exists'.mp ht
    obtain ⟨tb, htb⟩ := Option.ne_none_iff_exists'.mp htb
    have hnr : mapNr (pagePtr (m.tableEntry a) a) = t := by
      rw [(mapNr_pagePtr _ a).1, tableEntry_eq]
      exact (entryFrame_some ht).2
    obtain ⟨hlt, hself⟩ := h.reached _ (block_lt a) t ht
    have hpte : (m.putPte (mapNr b) v).pte t = m.pte t := by
      rw [h.tables.pte_putPte (mapNr_lt b) htb v (by omega), if_neg (by omega)]
    have hdir := h.tables.dir_putPte (mapNr_lt b) htb v
    rw [store_of_frame (by rw [hnr, change_frame hpte, frameOf, hpte]; exact hself), Option.map_some,
      invalidate_change, ← store_pagePtr (m.putPte (mapNr b) v) m a v hdir.symm]
    rfl
  · rfl

/-- **`share_page`** -/
theorem sharePage_translated (h : Window hi m) (hR : m.Reached) (hb : ¬ b < WINDOW)
    (hc : m.Countable a) (hr : Mem.sharePage k m a b = some m') (j : Nat) :
    sharePage (j + k + 5) (settled m) a b = some (settled m') := by
  rw [Mem.sharePage] at hr
  obtain ⟨m₁, hr₁, hr⟩ := Option.bind_eq_some_iff.mp hr
  obtain ⟨m₂, hr₂, hr⟩ := Option.bind_eq_some_iff.mp hr
  obtain ⟨m₃, hr₃, he⟩ := Option.map_eq_some_iff.mp hr
  obtain ⟨⟨h₁, -, ht₁⟩, ⟨h₂, -⟩, -⟩ := h.needFrom_reached hR hr₁ hr₂
  obtain ⟨-, f, hf, hcf⟩ := h.needFrom_result hc hr₁ hr₂
  have hT := h₂.needTable_result hr₃
  have h₃ := hT.window h₂ (block_lt b)
  have hf₃ := hT.frame_kept h₂ (mapNr_lt a) hf
  obtain ⟨hfp, hfc⟩ := h₃.page _ (mapNr_lt a) f hf₃
  have ht₃ := covered_of_frameOf hf₃
  obtain ⟨t, ht⟩ := tableOf_of_frameOf hf₃
  have hentry : m₂.tableEntry a = m₃.tableEntry a := by
    rw [tableEntry_eq, tableEntry_eq, hT.dir h₂ (covered_of_frameOf hf)]
  have hnr : mapNr (m₃.pte (mapNr a)) = f := (entryFrame_some hf₃).2
  have hset : Window hi (m₃.setMap f (m₃.memMap f + 1)) :=
    h₃.setMap (fun _ => add_one_ne_unused (hT.ne_255 hcf)) hfc
  obtain ⟨tb, htb⟩ := Option.ne_none_iff_exists'.mp (hT.table h₂)
  have hload : m₃.load (pagePtr (m₃.tableEntry a) a) = m₃.pte (mapNr a) := load_pagePtr ht
  rw [sharePage, needFromTable_translated h hr₁, Option.bind_some,
    needFromPage_translated h₁ ht₁ hr₂, Option.bind_some, load_tablePtr h₂, Option.bind_some]
  dsimp only at he ⊢
  rw [needTable_translated h₂ hr₃, Option.bind_some, load_tablePtr h₃, Option.bind_some, hentry,
    load_pageEntry h₃ ht₃, Option.bind_some]
  simp only [hentry, hload, hnr] at he
  simp only [show m₃.pageEntry a = m₃.pte (mapNr a) from hload, hnr, settled_mem, settled_setMap]
  have hboth := store_both hset hb (a := a) ht₃ (hT.table h₂) (m₃.pte (mapNr a) &&& ~~~2)
  have hdir := hset.tables.dir_putPte (mapNr_lt b) htb (m₃.pte (mapNr a) &&& ~~~2)
  rw [store_pagePtr (m₃.setMap f _) m₃ b _ rfl] at he
  refine hboth.trans (congrArg some (congrArg settled (Eq.trans ?_ he)))
  split_ifs
  · exact (store_pagePtr _ m₃ a _ hdir.symm).symm
  · rfl

end Mks.Mmu
