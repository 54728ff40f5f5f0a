import Mks.Memory.Translation

set_option autoImplicit false

/-! # Whole runs under address translation

The calls of `kernel/memory.c` in any order (`calls_translated`), and the accesses of user code with
the sharing of the big messages (`accesses_translated`), from the memory of `mem_init` on.
-/

namespace Mks

open Mem Mmu

variable {M : MainMemory} {m m₀ m₁ m' : Mem} {hi : Nat} {a v : Word} {k : Nat}

/-! ## The calls of the kernel -/

namespace Mem.AllocCall

def execMmu (k : Nat) (c : Mmu) : AllocCall → Option Mmu
  | getFreePage => (Mmu.getFreePage k c).map Prod.snd
  | createPageTable addr => (Mmu.createPageTable k c addr).map Prod.snd
  | doNoPage addr => Mmu.doNoPage k c addr
  | doWpPage addr => Mmu.doWpPage k c addr
  | sharePage fromAddr toAddr => Mmu.sharePage k c fromAddr toAddr

end Mem.AllocCall

def Mmu.AllocStep (c : Mmu) (op : AllocCall) (c' : Mmu) : Prop := ∃ k, op.execMmu k c = some c'

/-- **One call.** -/
theorem Mem.Window.call_translated {op : AllocCall} (h : Window hi m) (hR : m.Reached)
    (hs : Mem.AllocStep m op m') (hc : op.Proper m) :
    Mmu.AllocStep (settled m) op (settled m') := by
  obtain ⟨k, hex⟩ := hs
  cases op with
  | getFreePage =>
      obtain ⟨⟨p, m₂⟩, hp, rfl⟩ := Option.map_eq_some_iff.mp hex
      exact ⟨4, by rw [AllocCall.execMmu, getFreePage_translated h hp 0]; rfl⟩
  | createPageTable addr =>
      obtain ⟨⟨r, m₂⟩, hr, rfl⟩ := Option.map_eq_some_iff.mp hex
      exact ⟨5, by rw [AllocCall.execMmu, createPageTable_translated h hr 0]; rfl⟩
  | doNoPage addr => exact ⟨0 + k + 5, doNoPage_translated h hex 0⟩
  | doWpPage addr =>
      obtain ⟨f, hf⟩ := Option.ne_none_iff_exists'.mp hc.2
      exact ⟨0 + 4, doWpPage_translated h hR hf hex 0⟩
  | sharePage fromAddr toAddr => exact ⟨0 + k + 5, sharePage_translated h hR hc.1 hc.2 hex 0⟩

/-- The run of the processor. -/
def settledRun {ε : Type} (tr : List (Mem × ε × Mem)) : List (Mmu × ε × Mmu) :=
  tr.map fun t => (settled t.1, t.2.1, settled t.2.2)

theorem settledRun_snoc {ε : Type} (tr : List (Mem × ε × Mem)) (t : Mem × ε × Mem) :
    settledRun (tr ++ [t]) = settledRun tr ++ [(settled t.1, t.2.1, settled t.2.2)] :=
  List.map_append

/-- **The calls of the kernel** do on the processor what they do to the memory, and when one returns
no entry is stale. -/
theorem calls_translated {image : Mem} {memSize : Word} {tr : List (Mem × AllocCall × Mem)}
    (hb : Bare image)
    (h₀ : memInit (setupPaging image) (mainMemory memSize).1 (mainMemory memSize).2 = some m₀)
    (hr : Run Mem.AllocStep m₀ tr m) (hc : ∀ t ∈ tr, t.2.1.Proper t.1) :
    Run Mmu.AllocStep (settled m₀) (settledRun tr) (settled m) := by
  suffices h : (Window (mainFrames memSize).hi m ∧ m.Reached) ∧
      Run Mmu.AllocStep (settled m₀) (settledRun tr) (settled m) from h.2
  induction hr with
  | nil => exact ⟨⟨memInit_window hb h₀, memInit_reached hb h₀⟩, .nil⟩
  | @snoc tr m₁ m₂ op hr hs ih =>
      obtain ⟨⟨hw, hR⟩, hrun⟩ := ih fun t ht => hc t (by simp [ht])
      have hop := hc (m₁, op, m₂) (by simp)
      rw [settledRun_snoc]
      exact ⟨⟨hw.step hs hop, hR.step hw hs hop⟩, hrun.snoc (hw.call_translated hR hs hop)⟩

/-- A page is mapped, shared, and copied. -/
theorem calls_translated_copy : ∃ m₀ tr m,
    memInit (setupPaging emptyImage) (mainMemory 0x1000000).1 (mainMemory 0x1000000).2 = some m₀ ∧
    tr.map (fun t => t.2.1) = [.doNoPage pageA, .sharePage pageA pageB, .doWpPage pageB] ∧
    Run Mmu.AllocStep (settled m₀) (settledRun tr) (settled m) := by
  have hex : (memInit (setupPaging emptyImage) (mainMemory 0x1000000).1
      (mainMemory 0x1000000).2).bind (fun m₀ => (m₀.doNoPage 6 pageA).bind fun m₁ =>
        (m₁.sharePage 7 pageA pageB).bind fun m₂ => (m₂.doWpPage 6 pageB).map fun m₃ =>
          (m₁.frameOf (mapNr pageA), m₁.memMap 1025, m₂.frameOf (mapNr pageB),
            m₃.frameOf (mapNr pageB)))
      = some (some 1025, 1, some 1025, some 1026) := by decide +kernel
  simp only [Option.bind_eq_some_iff, Option.map_eq_some_iff, Prod.mk.injEq] at hex
  obtain ⟨m₀, h₀, m₁, h₁, m₂, h₂, m₃, h₃, hA, hc, hB, -⟩ := hex
  have hpage : Mem.AllocStep m₀ (.doNoPage pageA) m₁ := ⟨6, h₁⟩
  have hshare : Mem.AllocStep m₁ (.sharePage pageA pageB) m₂ := ⟨7, h₂⟩
  have hcopy : Mem.AllocStep m₂ (.doWpPage pageB) m₃ := ⟨6, h₃⟩
  have hr := ((Run.nil.snoc hpage).snoc hshare).snoc hcopy
  refine ⟨m₀, _, m₃, h₀, rfl, calls_translated emptyImage_bare h₀ hr fun t ht => ?_⟩
  simp only [List.nil_append, List.cons_append, List.mem_cons, List.not_mem_nil, or_false] at ht
  rcases ht with rfl | rfl | rfl
  · exact trivial
  · refine ⟨by decide, fun f hf => ?_⟩
    rcases hf with hf | ⟨hlt, -⟩
    · obtain rfl := Option.some.inj (hA.symm.trans hf)
      rw [hc]
      decide
    · exact absurd hlt (by decide)
  · refine ⟨by decide, ?_⟩
    show m₂.frameOf (mapNr pageB) ≠ none
    rw [hB]
    decide

/-! ## User code -/

/-- The invariants of the page tables. -/
structure Sound (M : MainMemory) (hi : Nat) (m : Mem) : Prop where
  paged : Paged M m
  window : Window hi m
  reached : m.Reached

namespace Sound

theorem not_lt (ha : a ≥ WINDOW) : ¬ a < WINDOW := BitVec.not_lt.mpr ha

theorem doNoPage (h : Sound M hi m) (ha : a ≥ WINDOW) (habs : m.frameOf (mapNr a) = none)
    (hr : Mem.doNoPage k m a = some m') : Sound M hi m' := by
  have hH := h.window.doNoPage_result hr
  exact ⟨(h.paged.doNoPage_paged ha habs hr).paged, hH.window_kept h.window,
    hH.reached h.reached h.window⟩

theorem doWpPage (h : Sound M hi m) (ha : a ≥ WINDOW) {f : Nat} (hf : m.frameOf (mapNr a) = some f)
    (hr : Mem.doWpPage k m a = some m') : Sound M hi m' := by
  have hn := mem_pages_of_ge ha
  obtain ⟨hw, hR⟩ := (h.window.doWpPage_result hf hr).window h.window (not_lt ha) hf h.reached
  refine ⟨?_, hw, hR⟩
  rcases h.paged.doWpPage_spec ha hf hr with ⟨hone, rfl⟩ | ⟨-, -, rfl⟩ | ⟨hone, i, hi, rfl⟩
  · exact (h.paged.quiet_unprotect hn hf hone).paged
  · exact h.paged
  · exact (h.paged.quiet_copyOut hi hn hf hone).paged

/-- A write of user code replaces no entry. -/
theorem put (h : Sound M hi m) {n f : Nat} (hn : n ∈ pages) (hf : m.frameOf n = some f)
    (hw : writable (m.pte n) = true) (j : Nat) (v : Word) :
    Sound M hi (m.put f j v) ∧ ∀ a < 1048576, (m.put f j v).pte a = m.pte a := by
  obtain ⟨hpte, hm⟩ := h.paged.put hn hf hw j v
  obtain ⟨hmain, hrefs⟩ := h.paged.writable_frame hn hf hw
  have hu : Unlinked m f := by
    refine ⟨?_, fun d hd ht => RefCount.count_eq_zero.mp hrefs d (Finset.mem_range.mpr hd) ht⟩
    have := Paged.has_ne M hmain
    omega
  have hfr : ∀ a < 1048576, (m.put f j v).frameOf a = m.frameOf a := fun a ha => by
    rw [frameOf, hpte a ha, frameOf]
  refine ⟨⟨hm.paged, h.window.fill hu h.window.used fun _ _ => rfl, fun a ha g hg => ?_⟩, hpte⟩
  rw [hfr a ha] at hg
  have hlt := (h.window.page a ha g hg).1
  rw [hfr g (lt_frames hlt)]
  exact h.reached a ha g hg

theorem entry_settled (m : Mem) (a : Word) :
    present (m.pte (mapNr a)) = (m.frameOf (mapNr a)).isSome := present_eq_isSome _

/-- **A read.** -/
theorem userRead_translated (h : Sound M hi m) (ha : a ≥ WINDOW)
    (hr : Mem.userRead k m a = some (v, m')) (j : Nat) :
    Mmu.userRead (j + k + 5) (settled m) a = some (v, settled m') ∧ Sound M hi m' := by
  induction k generalizing m with
  | zero =>
      rw [Mem.userRead] at hr
      cases hr
  | succ k ih =>
      rw [Mem.userRead, present_entries] at hr
      rw [show j + (k + 1) + 5 = (j + k + 5) + 1 by omega, Mmu.userRead, settled_entry,
        Option.bind_some, entry_settled]
      cases hf : m.frameOf (mapNr a) with
      | some f =>
          rw [hf, Option.isSome_some, if_pos rfl, (frameOf_pageEntry hf).1] at hr
          cases hr
          exact ⟨rfl, h⟩
      | none =>
          rw [hf, Option.isSome_none, if_neg (by decide)] at hr
          obtain ⟨m₁, hm₁, hrest⟩ := Option.bind_eq_some_iff.mp hr
          rw [Mem.doIntrPage, if_pos errorCode_read] at hm₁
          obtain ⟨hend, hs⟩ := ih (h.doNoPage ha hf hm₁) hrest
          refine ⟨?_, hs⟩
          rw [Option.isSome_none, if_neg (by decide), Mmu.doIntrPage, if_pos errorCode_read,
            doNoPage_translated h.window hm₁, Option.bind_some, hend]

/-- **A write.** -/
theorem userWrite_translated (h : Sound M hi m) (ha : a ≥ WINDOW)
    (hr : Mem.userWrite k m a v = some m') (j : Nat) :
    Mmu.userWrite (j + k + 5) (settled m) a v = some (settled m') ∧ Sound M hi m' := by
  induction k generalizing m with
  | zero =>
      rw [Mem.userWrite] at hr
      cases hr
  | succ k ih =>
      rw [Mem.userWrite, present_entries] at hr
      rw [show j + (k + 1) + 5 = (j + k + 5) + 1 by omega, Mmu.userWrite, settled_entry,
        Option.bind_some, entry_settled]
      cases hf : m.frameOf (mapNr a) with
      | some f =>
          rw [hf, Option.isSome_some, if_pos rfl, (frameOf_pageEntry hf).1] at hr
          rw [Option.isSome_some, if_pos rfl]
          cases hw : writable (m.pte (mapNr a)) with
          | true =>
              rw [hw, if_pos rfl, (entryFrame_some hf).2] at hr
              obtain rfl := Option.some.inj hr
              obtain ⟨hs, hpte⟩ := h.put (mem_pages_of_ge ha) hf hw (wordNr a) v
              refine ⟨?_, hs⟩
              rw [if_pos rfl, settled_mem, (entryFrame_some hf).2, settled_change hpte]
              rfl
          | false =>
              rw [hw, if_neg (by decide)] at hr
              obtain ⟨m₁, hm₁, hrest⟩ := Option.bind_eq_some_iff.mp hr
              rw [Mem.doIntrPage, if_neg errorCode_protected] at hm₁
              obtain ⟨hend, hs⟩ := ih (h.doWpPage ha hf hm₁) hrest
              refine ⟨?_, hs⟩
              have hwp := doWpPage_translated h.window h.reached hf hm₁ (j + k + 1)
              rw [if_neg (by decide), Mmu.doIntrPage, if_neg errorCode_protected, hwp,
                Option.bind_some, hend]
      | none =>
          rw [hf, Option.isSome_none, if_neg (by decide)] at hr
          obtain ⟨m₁, hm₁, hrest⟩ := Option.bind_eq_some_iff.mp hr
          rw [Mem.doIntrPage, if_pos errorCode_write] at hm₁
          obtain ⟨hend, hs⟩ := ih (h.doNoPage ha hf hm₁) hrest
          refine ⟨?_, hs⟩
          rw [Option.isSome_none, if_neg (by decide), Mmu.doIntrPage, if_pos errorCode_write,
            doNoPage_translated h.window hm₁, Option.bind_some, hend]

end Sound

/-! ## Runs of user code -/

def Mem.UserOp.execMmu (k : Nat) (c : Mmu) : UserOp → Option (Word × Mmu)
  | read a => Mmu.userRead k c a
  | write a v => (Mmu.userWrite k c a v).map fun c => (0, c)
  | share fromAddr toAddr => (Mmu.sharePage k c fromAddr toAddr).map fun c => (0, c)

def Mmu.UserStep (c : Mmu) (e : UserOp × Word) (c' : Mmu) : Prop :=
  e.1.Above ∧ ∃ k, e.1.execMmu k c = some (e.2, c')

/-- `share_page` gives the frame of one page to another. -/
theorem Sound.sharePage {b : Word} (h : Sound M hi m) (ha : a ≥ WINDOW) (hb : b ≥ WINDOW)
    (hc : m.NoWrap (mapNr a)) (hr : Mem.sharePage k m a b = some m') : Sound M hi m' := by
  have hcount : m.Countable a := by
    rintro f (hf | ⟨hlt, -⟩)
    · exact hc f hf
    · exact absurd hlt (not_lt ha)
  have hstep : Mem.AllocStep m (.sharePage a b) m' := ⟨k, hr⟩
  exact ⟨(h.paged.sharePage_shared ha hb hc hr).paged, h.window.step hstep ⟨not_lt hb, hcount⟩,
    h.reached.step h.window hstep ⟨not_lt hb, hcount⟩⟩

/-- **One operation.** -/
theorem Sound.step {op : UserOp} (h : Sound M hi m) (hs : Mem.UserStep m (op, v) m')
    (hc : op.Unwrapped m) : Mmu.UserStep (settled m) (op, v) (settled m') ∧ Sound M hi m' := by
  obtain ⟨habove, k, hex⟩ := hs
  cases op with
  | read a =>
      obtain ⟨hr, hs⟩ := h.userRead_translated habove hex 0
      exact ⟨⟨habove, 0 + k + 5, hr⟩, hs⟩
  | write a x =>
      obtain ⟨m₁, hm₁, he⟩ := Option.map_eq_some_iff.mp hex
      obtain ⟨rfl, rfl⟩ := Prod.mk.injEq .. ▸ he
      obtain ⟨hr, hs⟩ := h.userWrite_translated habove hm₁ 0
      exact ⟨⟨habove, _, by rw [UserOp.execMmu, hr]; rfl⟩, hs⟩
  | share a b =>
      obtain ⟨m₁, hm₁, he⟩ := Option.map_eq_some_iff.mp hex
      obtain ⟨rfl, rfl⟩ := Prod.mk.injEq .. ▸ he
      have hcount : m.Countable a := by
        rintro f (hf | ⟨hlt, -⟩)
        · exact hc f hf
        · exact absurd hlt (not_lt habove.1)
      have hr := sharePage_translated h.window h.reached (not_lt habove.2) hcount hm₁ 0
      exact ⟨⟨habove, _, by rw [UserOp.execMmu, hr]; rfl⟩, h.sharePage habove.1 habove.2 hc hm₁⟩

/-- **The accesses of user code** read on the processor what they read in the memory, and the
operations of the kernel leave nothing stale. -/
theorem accesses_translated {image : Mem} {memSize : Word}
    {tr : List (Mem × (UserOp × Word) × Mem)} (hb : Bare image)
    (h₀ : memInit (setupPaging image) (mainMemory memSize).1 (mainMemory memSize).2 = some m₀)
    (hr : Run Mem.UserStep m₀ tr m) (hc : ∀ t ∈ tr, t.2.1.1.Unwrapped t.1) :
    Run Mmu.UserStep (settled m₀) (settledRun tr) (settled m) := by
  suffices h : Sound (mainFrames memSize) (mainFrames memSize).hi m ∧
      Run Mmu.UserStep (settled m₀) (settledRun tr) (settled m) from h.2
  induction hr with
  | nil => exact ⟨⟨(memInit_fresh hb h₀).paged, memInit_window hb h₀, memInit_reached hb h₀⟩, .nil⟩
  | @snoc tr m₁ m₂ e hr hs ih =>
      obtain ⟨hsound, hrun⟩ := ih fun t ht => hc t (by simp [ht])
      obtain ⟨hstep, hsound'⟩ := hsound.step hs (hc (m₁, e, m₂) (by simp))
      rw [settledRun_snoc]
      exact ⟨hsound', hrun.snoc hstep⟩

/-- A write to a shared page. -/
theorem accesses_translated_write : ∃ m₀ tr m,
    memInit (setupPaging emptyImage) (mainMemory 0x1000000).1 (mainMemory 0x1000000).2 = some m₀ ∧
    tr.map (fun t => t.2.1) = [(.write pageA 7, 0), (.share pageA pageB, 0), (.write pageB 9, 0),
      (.read pageA, 7)] ∧ Run Mmu.UserStep (settled m₀) (settledRun tr) (settled m) := by
  have hex : (memInit (setupPaging emptyImage) (mainMemory 0x1000000).1
      (mainMemory 0x1000000).2).bind (fun m₀ => (m₀.userWrite 6 pageA 7).bind fun m₁ =>
        (m₁.sharePage 7 pageA pageB).bind fun m₂ => (m₂.userWrite 6 pageB 9).bind fun m₃ =>
          (m₃.userRead 6 pageA).map fun r => (m₁.frameOf (mapNr pageA), m₁.memMap 1025, r.1))
      = some (some 1025, 1, 7) := by decide +kernel
  simp only [Option.bind_eq_some_iff, Option.map_eq_some_iff, Prod.mk.injEq] at hex
  obtain ⟨m₀, h₀, m₁, h₁, m₂, h₂, m₃, h₃, ⟨v, m₄⟩, h₄, hf, hc, rfl⟩ := hex
  have hwriteA : Mem.UserStep m₀ (.write pageA 7, 0) m₁ :=
    ⟨show pageA ≥ WINDOW by decide, 6, by rw [UserOp.exec, h₁]; rfl⟩
  have hshare : Mem.UserStep m₁ (.share pageA pageB, 0) m₂ :=
    ⟨⟨by decide, by decide⟩, 7, by rw [UserOp.exec, h₂]; rfl⟩
  have hwriteB : Mem.UserStep m₂ (.write pageB 9, 0) m₃ :=
    ⟨show pageB ≥ WINDOW by decide, 6, by rw [UserOp.exec, h₃]; rfl⟩
  have hread : Mem.UserStep m₃ (.read pageA, 7) m₄ := ⟨show pageA ≥ WINDOW by decide, 6, h₄⟩
  have hr := (((Run.nil.snoc hwriteA).snoc hshare).snoc hwriteB).snoc hread
  refine ⟨m₀, _, m₄, h₀, rfl, accesses_translated emptyImage_bare h₀ hr fun t ht => ?_⟩
  simp only [List.nil_append, List.cons_append, List.mem_cons, List.not_mem_nil, or_false] at ht
  rcases ht with rfl | rfl | rfl | rfl
  · exact trivial
  · intro f hf'
    obtain rfl := Option.some.inj (hf.symm.trans hf')
    rw [hc]
    decide
  · exact trivial
  · exact trivial

end Mks
