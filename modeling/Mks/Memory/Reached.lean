import Mks.Memory.SharePage
import Mks.Memory.Recursion

set_option autoImplicit false

/-! # The kernel reaches the frames of the pages

`do_wp_page` copies a frame through the address of the frame itself, which has to be mapped. No call
checks that: it holds since each frame has been cleared through that address when it was given away.
-/

namespace Mks.Mem

variable {m m' m₁ : Mem} {hi : Nat} {a b : Word} {s : Set Nat} {k : Nat}

/-- The frame of every page is mapped for the kernel. -/
def Reached (m : Mem) : Prop := ∀ n < 1048576, ∀ f, m.frameOf n = some f → m.frameOf f = some f

/-- Calls keep it if the pages that they change have such frames. -/
theorem Reached.grows (hR : m.Reached) (h' : Window hi m') (hg : Grows s m m')
    (hlow : ∀ n ∈ s, n < 16384 → m'.frameOf n ≠ none)
    (hnew : ∀ n ∈ s, 16384 ≤ n → ∀ f, m'.frameOf n = some f → m'.frameOf f ≠ none) :
    m'.Reached := by
  have hself : ∀ f < 16384, m'.frameOf f ≠ none → m'.frameOf f = some f := by
    intro f hf hne
    obtain ⟨g, hg⟩ := Option.ne_none_iff_exists'.mp hne
    rw [hg, h'.identity f hf g hg]
  intro n hn f hf
  have hlt : f < 16384 := (h'.page n hn f hf).1
  rcases Nat.lt_or_ge n 16384 with hn' | hge
  · obtain rfl := h'.identity n hn' f hf
    exact hf
  by_cases hns : n ∈ s
  · exact hself f hlt (hnew n hns hge f hf)
  · rw [frameOf, hg.pte_process hn hns hge] at hf
    have hff := hR n hn f hf
    by_cases hfs : f ∈ s
    · exact hself f hlt (hlow f hfs hlt)
    · exact hg.frame_kept (by omega) hfs hff

/-- For calls that change no page of a process. -/
theorem Reached.grows_empty (hR : m.Reached) (h' : Window hi m') (hg : Grows ∅ m m') :
    m'.Reached :=
  hR.grows h' hg (fun _ hn => absurd hn (Set.notMem_empty _)) fun _ hn =>
    absurd hn (Set.notMem_empty _)

theorem Got.reached {p : Word} (hg : Got m p m') (hR : m.Reached) (h : Window hi m) :
    m'.Reached := by
  cases hg with
  | noFrame _ => exact hR
  | frame hf hcov _ =>
      obtain ⟨hlt, hun, -⟩ := firstFree_some hf
      exact hR.grows_empty (h.grab hun hlt hcov) (h.regular.grab hf hcov).grows

theorem HasTable.frames_reached {d : Nat} (hT : HasTable d m m') (hR : m.Reached)
    (h : Window hi m) (hd : d < 1024) : m'.Reached :=
  hR.grows_empty (hT.window h hd) ((hT.tableMade h).grows h.regular)

/-- A page of a process gets an entry. -/
theorem Reached.putPte (hR : m.Reached) (h : Window hi m) {n f : Nat} {v : Word}
    (hn : n < 1048576) (hge : 16384 ≤ n) (ht : m.tableOf (n / 1024) ≠ none)
    (hv : entryFrame v = some f) (hf : m.frameOf f = some f) (hlt : f < PAGING_PAGES)
    (hcov : m.Covered f) : (m.putPte n v).Reached := by
  have hlt' : f < 16384 := hlt
  have h' := h.putPte hn ht hv (fun hlow => absurd hlow (by omega)) hlt hcov
  have hg := h.tables.grows_putPte hn ht v
  obtain ⟨t, ht⟩ := Option.ne_none_iff_exists'.mp ht
  refine hR.grows h' hg (fun a ha hlow => ?_) fun a ha _ g hga => ?_
  · obtain rfl := Set.mem_singleton_iff.mp ha
    omega
  · obtain rfl := Set.mem_singleton_iff.mp ha
    rw [h.tables.frameOf_putPte hn ht v hn, if_pos rfl, hv] at hga
    obtain rfl := Option.some.inj hga
    rw [hg.frame_kept (by omega) (fun e => by have := Set.mem_singleton_iff.mp e; omega) hf]
    exact Option.some_ne_none _

theorem Handled.reached (hH : Handled a m m') (hR : m.Reached) (h : Window hi m) :
    m'.Reached := by
  cases hH with
  | @window m₁ hT ha =>
      have h₁ := hT.window h (block_lt a)
      have ht := hT.table h
      have hg := h₁.tables.grows_putPte (mapNr_lt a) ht ((a &&& 0xFFFFF000) ||| 7)
      have hR₁ := hT.frames_reached hR h (block_lt a)
      have hlt := (lt_window a).mp ha
      obtain ⟨t, ht'⟩ := Option.ne_none_iff_exists'.mp ht
      refine hR₁.grows (h₁.mapSelf hlt ht) hg (fun n hn _ => ?_) fun n hn hge => ?_
      · obtain rfl := Set.mem_singleton_iff.mp hn
        rw [Mem.mapSelf, h₁.tables.frameOf_putPte (mapNr_lt a) ht' _ (mapNr_lt a), if_pos rfl,
          entryFrame_self]
        exact Option.some_ne_none _
      · obtain rfl := Set.mem_singleton_iff.mp hn
        omega
  | noFrame hT _ _ => exact hT.frames_reached hR h (block_lt a)
  | @page m₁ i hT ha hf hcov =>
      have h₁ := hT.window h (block_lt a)
      obtain ⟨hlt, hun, -⟩ := firstFree_some hf
      have hgT := h₁.grab_tableOf hun hlt hcov
      refine ((Got.frame hf hcov (h₁.frame_ne_zero hun hlt).2).reached
        (hT.frames_reached hR h (block_lt a)) h₁).putPte (h₁.grab hun hlt hcov) (mapNr_lt a)
        (window_le ha) (by rw [hgT]; exact hT.table h) (entryFrame_frameAddr (lt_frames hlt)) ?_ hlt
        ((covered_congr hgT i).mpr hcov)
      rw [h₁.grab_frameOf hun hlt hcov (lt_frames hlt), if_pos rfl]

/-! ## Write faults -/

/-- The state in which `do_wp_page` writes the entry of the new page. -/
def duplicate (m : Mem) (f i : Nat) (src : Word) : Mem :=
  ((m.grab i).setMap f ((m.grab i).memMap f - 1)).copyPage src (frameAddr i)

/-- What `do_wp_page` does when it returns. -/
inductive WriteFault (a : Word) (f : Nat) (m : Mem) : Mem → Prop
  | alone (hone : m.memMap f = 1) : WriteFault a f m (m.unprotect (mapNr a))
  | noFrame (hone : m.memMap f ≠ 1) (hf : m.firstFree = none) : WriteFault a f m m
  | copied {i : Nat} (hone : m.memMap f ≠ 1) (hf : m.firstFree = some i) (hcov : m.Covered i) :
      WriteFault a f m ((m.duplicate f i (m.pte (mapNr a) &&& 0xFFFFF000)).putPte (mapNr a)
        (frameAddr i ||| 7))

theorem Window.doWpPage_result (h : Window hi m) {f : Nat} (hf : m.frameOf (mapNr a) = some f)
    (hr : doWpPage k m a = some m') : WriteFault a f m m' := by
  obtain ⟨t, ht⟩ := tableOf_of_frameOf hf
  have hnr : mapNr (m.pte (mapNr a)) = f := (entryFrame_some hf).2
  have hfc := (h.page _ (mapNr_lt a) f hf).2
  simp only [doWpPage, load_pagePtr ht, mapNr_mask, hnr] at hr
  split_ifs at hr with hone
  · cases hr
    rw [store_pagePtr _ _ _ _ rfl]
    exact .alone hone
  · obtain ⟨⟨p, m₁⟩, hp, he⟩ := Option.map_eq_some_iff.mp hr
    cases h.getFreePage_got hp with
    | noFrame hno =>
        cases he
        exact .noFrame hone hno
    | @frame i hi' hcov hne =>
        obtain ⟨hlt, hun, -⟩ := firstFree_some hi'
        simp only [if_neg hne] at he
        have hdir := (h.copy hun hlt hcov hfc hone (m.pte (mapNr a) &&& 0xFFFFF000)).2
        rw [← he, store_pagePtr _ _ _ _ hdir.symm]
        exact .copied hone hi' hcov

section
variable {f i : Nat} (h : Window hi m) (hun : m.memMap i = UNUSED) (hlt : i < PAGING_PAGES)
  (hcov : m.Covered i)
include h hun hlt hcov

/-- The copy replaces no entry. -/
theorem Window.duplicate_pte (src : Word) {n : Nat} (hn : n < 1048576) :
    (m.duplicate f i src).pte n = (m.grab i).pte n := by
  have hgu : Unlinked (m.grab i) i := (h.unlinked hun).congr (h.grab_tableOf hun hlt hcov)
  have hnr := mapNr_frameAddr (i := i) (lt_frames hlt)
  refine hgu.fill_pte (x := (m.grab i).phys (mapNr src)) ?_ hn
  show Function.update (m.grab i).phys (mapNr (frameAddr i)) _ = _
  rw [hnr]
  rfl

theorem Window.duplicate_frameOf (src : Word) {n : Nat} (hn : n < 1048576) :
    (m.duplicate f i src).frameOf n = if n = i then some i else m.frameOf n := by
  rw [frameOf, h.duplicate_pte hun hlt hcov src hn, ← h.grab_frameOf hun hlt hcov hn, frameOf]

end

theorem Reached.duplicate (hR : m.Reached) (h : Window hi m) {i : Nat} (hun : m.memMap i = UNUSED)
    (hlt : i < PAGING_PAGES) (hcov : m.Covered i) (f : Nat) (src : Word) :
    (m.duplicate f i src).Reached := by
  have hlt' : i < 16384 := hlt
  intro n hn g hg
  have hfr : ∀ n < 1048576, (m.duplicate f i src).frameOf n = if n = i then some i else m.frameOf n :=
    fun n hn => h.duplicate_frameOf hun hlt hcov src hn
  rw [hfr n hn] at hg
  split_ifs at hg with hni
  · obtain rfl := Option.some.inj hg
    rw [hfr i (by omega), if_pos rfl]
  · have hg' : g < 16384 := (h.page n hn g hg).1
    rw [hfr g (by omega)]
    split_ifs with hgi
    · rw [hgi]
    · exact hR n hn g hg

theorem WriteFault.window {f : Nat} (hW : WriteFault a f m m') (h : Window hi m)
    (ha : ¬ a < WINDOW) (hf : m.frameOf (mapNr a) = some f) (hR : m.Reached) :
    Window hi m' ∧ m'.Reached := by
  have hge := window_le ha
  have ht := covered_of_frameOf hf
  obtain ⟨hfp, hfc⟩ := h.page _ (mapNr_lt a) f hf
  cases hW with
  | alone _ =>
      have hv : entryFrame (m.pte (mapNr a) ||| 2) = some f := by
        rw [entryFrame_or_two]
        exact hf
      exact ⟨h.putPte (mapNr_lt a) ht hv (fun hlow => absurd hlow (by omega)) hfp hfc,
        hR.putPte h (mapNr_lt a) hge ht hv (hR _ (mapNr_lt a) f hf) hfp hfc⟩
  | noFrame _ _ => exact ⟨h, hR⟩
  | @copied i hone hi' hcov =>
      obtain ⟨hlt, hun, -⟩ := firstFree_some hi'
      obtain ⟨hcopy, hdir⟩ := h.copy hun hlt hcov hfc hone (m.pte (mapNr a) &&& 0xFFFFF000)
      have hcT := tableOf_congr hdir
      have ht' : (m.duplicate f i (m.pte (mapNr a) &&& 0xFFFFF000)).tableOf (mapNr a / 1024) ≠ none :=
        hcT ▸ ht
      have hv := entryFrame_frameAddr (lt_frames hlt)
      refine ⟨hcopy.putPte (mapNr_lt a) ht' hv (fun hlow => absurd hlow (by omega)) hlt
        ((covered_congr hcT i).mpr hcov), (hR.duplicate h hun hlt hcov f _).putPte hcopy (mapNr_lt a)
        hge ht' hv ?_ hlt ((covered_congr hcT i).mpr hcov)⟩
      rw [h.duplicate_frameOf hun hlt hcov _ (lt_frames hlt), if_pos rfl]

/-! ## Sharing -/

theorem Window.needFrom_reached (h : Window hi m) (hR : m.Reached) {k' : Nat} {m₂ : Mem}
    (hr : needFromTable k m a = some m₁) (hr' : needFromPage k' m₁ a = some m₂) :
    (Window hi m₁ ∧ m₁.Reached ∧ m₁.tableOf (mapNr a / 1024) ≠ none) ∧
      (Window hi m₂ ∧ m₂.Reached) ∧ ∃ f, m₂.frameOf (mapNr a) = some f := by
  obtain ⟨⟨h₁, hR₁⟩, ht₁⟩ := needFromTable_loop (P := fun m => Window hi m ∧ m.Reached)
    (fun m k m' hP hr => by
      have hH := hP.1.doNoPage_result hr
      exact ⟨hH.window_kept hP.1, hH.reached hP.2 hP.1⟩) ⟨h, hR⟩ hr
  obtain ⟨⟨h₂, hR₂, ht₂⟩, hp⟩ := needFromPage_loop
    (P := fun m => Window hi m ∧ m.Reached ∧ m.tableOf (mapNr a / 1024) ≠ none)
    (fun m k m' hP hr => by
      have hH := hP.1.doNoPage_result hr
      exact ⟨hH.window_kept hP.1, hH.reached hP.2.1 hP.1, hH.table hP.1⟩) ⟨h₁, hR₁, ht₁⟩ hr'
  refine ⟨⟨h₁, hR₁, ht₁⟩, ⟨h₂, hR₂⟩, ?_⟩
  rw [pageEntry_frame ht₂] at hp
  exact Option.isSome_iff_exists.mp hp

theorem Window.shareEnd (h : Window hi m) {n c f : Nat} (hn : n < 1048576) (hc : c < 1048576)
    (hf : m.frameOf n = some f) (ht : m.tableOf (c / 1024) ≠ none) (hcount : m.memMap f ≠ 255)
    (hge : 16384 ≤ c) : Window hi (m.shareEnd n c f) := by
  unfold Mem.shareEnd
  split_ifs with hn'
  · exact h.share hn hn' hc hge hf ht hcount
  · exact h.link hn hc hge hf ht hcount

theorem Reached.shareEnd (hR : m.Reached) (h : Window hi m) {n c f : Nat} (hn : n < 1048576)
    (hc : c < 1048576) (hf : m.frameOf n = some f) (ht : m.tableOf (c / 1024) ≠ none)
    (hcount : m.memMap f ≠ 255) (hge : 16384 ≤ c) : (m.shareEnd n c f).Reached := by
  have hff := hR n hn f hf
  have hfr : ∀ x < 1048576, (m.shareEnd n c f).frameOf x =
      if x = c then some f else m.frameOf x := by
    intro x hx
    by_cases hxs : x = n ∨ x = c
    · rw [h.tables.shareEnd_frameOf hn hc hf ht hxs]
      split_ifs with hxc
      · rfl
      · rw [hxs.resolve_right hxc, hf]
    · rw [frameOf, h.tables.shareEnd_pte hn hc hf ht hx, if_neg (by tauto), if_neg (by tauto), frameOf]
  intro x hx g hg
  have hgl : g < 16384 := ((h.shareEnd hn hc hf ht hcount hge).page x hx g hg).1
  rw [hfr x hx] at hg
  rw [hfr g (by omega), if_neg (by omega)]
  split_ifs at hg with hxc
  · obtain rfl := Option.some.inj hg
    exact hff
  · exact hR x hx g hg

/-! ## Runs -/

/-- **One call** keeps both. -/
theorem Reached.step {c : AllocCall} (hR : m.Reached) (h : Window hi m) (hs : AllocStep m c m')
    (hc : c.Proper m) : m'.Reached := by
  obtain ⟨k, hex⟩ := hs
  cases c with
  | getFreePage =>
      obtain ⟨⟨p, m₂⟩, hp, rfl⟩ := Option.map_eq_some_iff.mp hex
      exact (h.getFreePage_got hp).reached hR h
  | createPageTable addr =>
      obtain ⟨⟨r, m₂⟩, hr, rfl⟩ := Option.map_eq_some_iff.mp hex
      rcases h.createPageTable_result hr with ⟨-, rfl, -⟩ | hT
      · exact hR
      · exact hT.frames_reached hR h (block_lt addr)
  | doNoPage addr => exact (h.doNoPage_result hex).reached hR h
  | doWpPage addr =>
      obtain ⟨f, hf⟩ := Option.ne_none_iff_exists'.mp hc.2
      exact ((h.doWpPage_result hf hex).window h hc.1 hf hR).2
  | sharePage fromAddr toAddr =>
      obtain ⟨m₁, m₂, m₃, hr₁, hr₂, hT, hend⟩ := h.sharePage_result hex
      obtain ⟨-, ⟨h₂, hR₂⟩, -⟩ := h.needFrom_reached hR hr₁ hr₂
      obtain ⟨-, f, hf, hcf⟩ := h.needFrom_result hc.2 hr₁ hr₂
      obtain ⟨hf₃, he⟩ := hend f hf
      have h₃ := hT.window h₂ (block_lt toAddr)
      have he' : m' = m₃.shareEnd (mapNr fromAddr) (mapNr toAddr) f := by
        rw [he, Mem.shareEnd]
        refine if_congr ?_ rfl rfl
        rw [ge_iff_le, ← BitVec.not_lt, lt_window, Nat.not_lt]
      rw [he']
      exact (hT.frames_reached hR₂ h₂ (block_lt toAddr)).shareEnd h₃ (mapNr_lt fromAddr)
        (mapNr_lt toAddr) hf₃ (hT.table h₂) (hT.ne_255 hcf) (window_le hc.1)

/-- After `setup_paging` and `mem_init` only the kernel window is mapped. -/
theorem memInit_reached {image : Mem} {memSize : Word} (hb : Bare image)
    (h : memInit (setupPaging image) (mainMemory memSize).1 (mainMemory memSize).2 = some m) :
    m.Reached := by
  have hw := memInit_window hb h
  intro n hn f hf
  obtain ⟨t, ht⟩ := tableOf_of_frameOf hf
  have hd : n / 1024 < 8 := by
    by_contra hge
    rw [memInit_bare hb h (by omega) (by omega)] at ht
    cases ht
  rw [hw.kernelPage n (by omega)] at hf
  obtain rfl := Option.some.inj hf
  exact hw.kernelPage _ (by omega)

end Mks.Mem
