import Mks.Memory.AccessFootprint
import Mks.Message.BigMessage

set_option autoImplicit false

/-! # The memory of the processes

The processes share frames, and frames are copied when they are written. Yet every process sees the
memory that it would have for itself: a word of a page changes when it is written, and when the page
gets a big message, and otherwise never (`private_memory`).

Only pages that show the first 640KB change on their own: there the kernel has its variables and the
page directory. They are the first 160 pages of processes 1 and 2, and pages that have got these as
messages, until they are written. Nor is a page out of the reach of all others: the segments end one
page after the window, so the first page of a window is open to the process before.
-/

namespace Mks

/-! ## Pages that share nothing -/

/-- What an operation does to the pages of the processes. -/
inductive PageEvent
  | read (n j : Nat) (v : Word)
  | write (n j : Nat) (v : Word)
  | copy (fromPage toPage : Nat)
  deriving DecidableEq

/-- What each page holds, word by word. `none`: a word that may be the kernel's, of which nothing is
said. -/
abbrev Pages := Nat → Nat → Option Word

namespace Pages

def apply (r : Pages) : PageEvent → Pages
  | .read _ _ _ => r
  | .write n j v => Function.update r n (Function.update (r n) j (some v))
  | .copy n n' => Function.update r n' (r n)

/-- A read gives what the page holds. -/
def Agrees (r : Pages) : PageEvent → Prop
  | .read n j v => ∀ w, r n j = some w → v = w
  | .write _ _ _ | .copy _ _ => True

def play (r : Pages) (es : List PageEvent) : Pages := es.foldl apply r

/-- All reads give what the pages hold. -/
def Explains (r : Pages) : List PageEvent → Prop
  | [] => True
  | e :: es => r.Agrees e ∧ (r.apply e).Explains es

variable {r : Pages} {es : List PageEvent}

theorem play_append (es' : List PageEvent) : r.play (es ++ es') = (r.play es).play es' :=
  List.foldl_append

theorem explains_append (es' : List PageEvent) :
    r.Explains (es ++ es') ↔ r.Explains es ∧ (r.play es).Explains es' := by
  induction es generalizing r with
  | nil => exact (true_and _).symm.to_iff
  | cons e es ih =>
      rw [List.cons_append, Explains, Explains, ih, and_assoc]
      rfl

end Pages

namespace Kernel

open Mem

/-- The event of one operation. Big messages are copied when a send and a receive are paired.
Accesses to page 0 of the kernel window, after the window of process 63, are left out. -/
def pageEvent (t : Kernel × (Op × Int) × Kernel) : Option PageEvent :=
  let k := t.1
  let p := k.sched.procCurrent
  match t.2.1.1 with
  | .read a =>
      if a ≥ WINDOW then some (.read (mapNr a) (wordNr a) (BitVec.ofInt 32 t.2.1.2)) else none
  | .write a v => if a ≥ WINDOW then some (.write (mapNr a) (wordNr a) v) else none
  | .msg f peer buf =>
      let x : Request := ⟨p, peer, (msgEntry p buf).toInt⟩
      if f = 3 then ((k.requests .bigReceive).find? (meets x)).map fun b =>
        .copy (mapNr x.addr) (mapNr b.addr)
      else if f = 4 then ((k.requests .bigSend).find? fun a => meets a x).map fun a =>
        .copy (mapNr a.addr) (mapNr x.addr)
      else none
  | .hardware _ _ | .clock _ | .kernelStore _ _ => none

/-- The events of a run. -/
def history (tr : List (Kernel × (Op × Int) × Kernel)) : List PageEvent := tr.filterMap pageEvent

open Classical in
/-- The pages at the start. -/
noncomputable def startPages (k : Kernel) : Pages := fun n j =>
  if k.mem.ShowsKernel n then none else some (k.mem.contents n j)

/-- Process `p` reads and writes pages of its segment. A copy is between two windows, one of them
that of `p`. -/
def OfProcess (p : Int) : PageEvent → Prop
  | .read n _ _ | .write n _ _ => Reach p n
  | .copy n n' => windowOf n ≠ windowOf n' ∧ (windowOf n = p ∨ windowOf n' = p)

variable {L : Layout} {M : MainMemory} {k k' : Kernel} {r : Pages}

/-! ## One operation -/

theorem pageEvent_read {a : Word} {res : Int} : pageEvent (k, (.read a, res), k') =
    if a ≥ WINDOW then some (.read (mapNr a) (wordNr a) (BitVec.ofInt 32 res)) else none := rfl

theorem pageEvent_write {a v : Word} {res : Int} : pageEvent (k, (.write a v, res), k') =
    if a ≥ WINDOW then some (.write (mapNr a) (wordNr a) v) else none := rfl

theorem pageEvent_pairs {f peer buf res : Int} {e : PageEvent}
    (h0 : k.sched.procCurrent ≠ PROC_IDLE_NR)
    (he : pageEvent (k, (.msg f peer buf, res), k') = some e) :
    ∃ a b, Pairs k (.msg f peer buf) a b ∧ e = .copy (mapNr a.addr) (mapNr b.addr) := by
  simp only [pageEvent] at he
  split_ifs at he with h3 h4
  · obtain ⟨b, hb, rfl⟩ := Option.map_eq_some_iff.mp he
    exact ⟨_, b, h3 ▸ .send h0 hb, rfl⟩
  · obtain ⟨a, ha, rfl⟩ := Option.map_eq_some_iff.mp he
    exact ⟨a, _, h4 ▸ .receive h0 ha, rfl⟩

theorem Pairs.pageEvent {op : Op} {a b : Request} {res : Int} (hp : Pairs k op a b) :
    pageEvent (k, (op, res), k') = some (.copy (mapNr a.addr) (mapNr b.addr)) := by
  cases hp with
  | send h0 hb =>
      simp only [Kernel.pageEvent, hb]
      rfl
  | receive h0 ha =>
      simp only [Kernel.pageEvent, ha]
      rfl

/-- A call without an event leaves the memory alone. -/
theorem pageEvent_none {f peer buf res : Int} (h : Ok L k)
    (hs : Step L k (.msg f peer buf, res) k')
    (he : pageEvent (k, (.msg f peer buf, res), k') = none) : k'.mem = k.mem := by
  refine unpaired_mem h hs fun a b hp => ?_
  cases he.symm.trans hp.pageEvent

/-- The words that the pages hold when they share nothing are there, and are not the kernel's. -/
def Shows (r : Pages) (k : Kernel) : Prop :=
  ∀ n ∈ pages, ∀ j w, r n j = some w → ¬ k.mem.ShowsKernel n ∧ k.mem.contents n j = w

theorem shows_start (k : Kernel) : Shows k.startPages k := by
  intro n _ j w hw
  unfold startPages at hw
  split_ifs at hw with hk
  exact ⟨hk, Option.some.inj hw⟩

/-- Pages outside `C` hold what they held. -/
theorem Shows.leaves {P C : Set Nat} (h : Shows r k) (hl : Leaves P C k.mem k'.mem) {n j : Nat}
    (hn : n ∈ pages) (hnC : n ∉ C) {w : Word} (hw : r n j = some w) :
    ¬ k'.mem.ShowsKernel n ∧ k'.mem.contents n j = w := by
  obtain ⟨hk, hcont⟩ := h n hn j w hw
  exact ⟨hl.kernel n hn hnC hk, by rw [hl.contents n hn hnC hk, hcont]⟩

theorem Shows.leaves_all {P : Set Nat} (h : Shows r k) (hl : Leaves P ∅ k.mem k'.mem) :
    Shows r k' := fun _ hn _ _ hw => h.leaves hl hn (Set.notMem_empty _) hw

/-- **A pair copies a page.** -/
theorem Pairs.shows {op : Op} {a b : Request} {res : Int} (hp : Pairs k op a b)
    (h : Guarded L M k) (hu : k.mem.InUse) (hin : Inside op) (hs : Step L k (op, res) k')
    (hr : Shows r k) : Shows (r.apply (.copy (mapNr a.addr) (mapNr b.addr))) k' ∧
      OfProcess k.sched.procCurrent (.copy (mapNr a.addr) (mapNr b.addr)) := by
  obtain ⟨ha, hb⟩ := hp.inWindow h hin
  obtain ⟨-, n, hn⟩ := hp.shares h.ok hs
  obtain ⟨hl, f, hfa, hfb⟩ := (h.paged hu).sharePage_leaves ha.ge hb.ge hn
  have hne := hp.ne h.ok
  have hpage : mapNr a.addr ≠ mapNr b.addr := by
    intro e
    rw [← ha.window, ← hb.window, ← windowOf_mapNr, ← windowOf_mapNr, e] at hne
    exact hne rfl
  constructor
  · intro c hc j w hw
    rw [Pages.apply, Function.update_apply] at hw
    split_ifs at hw with hcb
    · -- the receiver gets the frame of the sender
      obtain ⟨hk, hcont⟩ := hr.leaves hl (mem_pages_of_ge ha.ge) hpage hw
      rw [showsKernel_of_frame hfa] at hk
      rw [contents_some hfa] at hcont
      rw [hcb, showsKernel_of_frame hfb, contents_some hfb]
      exact ⟨hk, hcont⟩
    · exact hr.leaves hl hc hcb hw
  · rw [OfProcess, windowOf_mapNr, windowOf_mapNr, ha.window, hb.window]
    refine ⟨hne, ?_⟩
    cases hp with
    | send _ _ => exact .inl rfl
    | receive _ _ => exact .inr rfl

/-- **A write** is seen, and only there. -/
theorem Shows.userWrite (hr : Shows r k) (h : Paged M k.mem) {a v : Word} {n : Nat} (ha : a ≥ WINDOW)
    (hw : k.mem.userWrite n a v = some k'.mem) :
    Shows (r.apply (.write (mapNr a) (wordNr a) v)) k' := by
  obtain ⟨hl, hk, hword, hrest⟩ := h.userWrite_leaves ha hw
  intro c hc j w hx
  rw [Pages.apply, Function.update_apply] at hx
  split_ifs at hx with hca
  · subst hca
    refine ⟨hk, ?_⟩
    rw [Function.update_apply] at hx
    split_ifs at hx with hj
    · rw [hj, hword]
      exact Option.some.inj hx
    · obtain ⟨hk₀, hcont⟩ := hr _ hc j w hx
      rw [hrest hk₀, Function.update_of_ne hj, hcont]
  · exact hr.leaves hl hc hca hx

/-- **One operation.** -/
theorem Guarded.shows {e : Op × Int} (h : Guarded L M k) (hu : k.mem.InUse) (hin : Inside e.1)
    (hs : Step L k e k') (hr : Shows r k) :
    Shows (r.play (pageEvent (k, e, k')).toList) k' ∧ ∀ v, pageEvent (k, e, k') = some v →
      r.Agrees v ∧ OfProcess k.sched.procCurrent v := by
  have hpaged := h.paged hu
  have hsame : k'.mem = k.mem → Shows r k' := fun hmem n hn j w hw => by
    rw [hmem]
    exact hr n hn j w hw
  obtain ⟨op, res⟩ := e
  cases op with
  | msg f peer buf =>
      have h0 := step_caller hs
      cases he : pageEvent (k, (.msg f peer buf, res), k') with
      | none => exact ⟨hsame (pageEvent_none h.ok hs he), fun v hv => by cases hv⟩
      | some v =>
          obtain ⟨a, b, hp, rfl⟩ := pageEvent_pairs h0 he
          obtain ⟨hshow, hof⟩ := hp.shows h hu hin hs hr
          refine ⟨hshow, fun v hv => ?_⟩
          obtain rfl := Option.some.inj hv
          exact ⟨trivial, hof⟩
  | hardware dest msg =>
      cases (step_cases h.ok hs).2 with
      | hardware hsent =>
          refine ⟨hsame ?_, fun v hv => by cases hv⟩
          cases hsent with
          | invalid _ | crossed | full => rfl
          | queued hno hcross hreq hcells hmem hstate => exact hmem
          | delivered l₁ l₂ b hl hb hl₁ hreq hcells hmem hstate => exact hmem
  | clock cpl =>
      cases (step_cases h.ok hs).2 with
      | clock hst => exact ⟨hsame rfl, fun v hv => by cases hv⟩
  | read a =>
      cases (step_cases h.ok hs).2 with
      | @read a res n v mem h0 ha hread hres =>
          obtain ⟨hge, hlt⟩ := h.ok.caller_bound h0
          obtain ⟨hreach, hpage⟩ := ha.reach hge hlt
          rw [pageEvent_read]
          split_ifs with hw
          · obtain ⟨hl, hv⟩ := hpaged.userRead_leaves hw hread
            refine ⟨hr.leaves_all hl, fun v' hv' => ?_⟩
            obtain rfl := Option.some.inj hv'
            refine ⟨fun w hrw => ?_, hreach⟩
            obtain ⟨hk, hcont⟩ := hr _ (mem_pages_of_ge hw) _ w hrw
            rw [← hcont, ← hv hk, hres, BitVec.ofInt_toInt]
          · have hzero := hpage.resolve_left hw
            exact ⟨hsame (hpaged.userRead_kernel (by omega) hread), fun v hv => by cases hv⟩
  | write a v =>
      cases (step_cases h.ok hs).2 with
      | @write a v n mem h0 ha hwrite =>
          obtain ⟨hge, hlt⟩ := h.ok.caller_bound h0
          obtain ⟨hreach, hpage⟩ := ha.reach hge hlt
          rw [pageEvent_write]
          split_ifs with hw
          · have hr' : Shows _ { k with mem := mem } := hr.userWrite hpaged hw hwrite
            refine ⟨hr', fun v' hv' => ?_⟩
            obtain rfl := Option.some.inj hv'
            exact ⟨trivial, hreach⟩
          · have hzero := hpage.resolve_left hw
            obtain rfl := hpaged.userWrite_kernel (by omega) hwrite
            have hkernel : IsKernelFrame (mapNr a) := by
              rw [hzero]
              decide
            exact ⟨hr.leaves_all (hpaged.tablesApart.leaves_kernelStore hkernel _ _),
              fun v hv => by cases hv⟩
  | kernelStore a v =>
      cases (step_cases h.ok hs).2 with
      | kernelStore ha =>
          exact ⟨hr.leaves_all (hpaged.tablesApart.leaves_kernelStore ha _ _),
            fun v hv => by cases hv⟩

/-! ## Runs -/

theorem history_snoc (tr : List (Kernel × (Op × Int) × Kernel)) (t : Kernel × (Op × Int) × Kernel) :
    history (tr ++ [t]) = history tr ++ (pageEvent t).toList := by
  rw [history, List.filterMap_append, history]
  cases h : pageEvent t <;> simp [h]

/-- **Every process has its memory for itself.** In every run whose message pages lie within the
segments and in which no counter overflows, every read gives what the page holds when no pages are
shared and a big message copies a page; all accesses of a process are to its own window or the page
after it, and one page of every copy is in its window. -/
theorem private_memory {n : Nat} {image : Mem} {memSize : Word} {k₀ : Kernel}
    {tr : List (Kernel × (Op × Int) × Kernel)} (hb : Bare image)
    (hm : boot n image memSize = some k₀.mem) (h₀ : Start k₀) (hr : Run (Step L) k₀ tr k)
    (hc : ∀ t ∈ tr, Inside t.2.1.1 ∧ t.1.mem.InUse) :
    k₀.startPages.Explains (history tr) ∧
    (∀ n ∈ pages, ∀ j w, k₀.startPages.play (history tr) n j = some w → k.mem.contents n j = w) ∧
    ∀ t ∈ tr, ∀ v, pageEvent t = some v → OfProcess t.1.sched.procCurrent v := by
  suffices h : k₀.startPages.Explains (history tr) ∧ Shows (k₀.startPages.play (history tr)) k ∧
      ∀ t ∈ tr, ∀ v, pageEvent t = some v → OfProcess t.1.sched.procCurrent v from
    ⟨h.1, fun n hn j w hw => (h.2.1 n hn j w hw).2, h.2.2⟩
  induction hr with
  | nil => exact ⟨trivial, shows_start k₀, by simp⟩
  | @snoc tr k₁ k₂ e hr hs ih =>
      obtain ⟨hexp, hshow, hall⟩ := ih fun t ht => hc t (by simp [ht])
      obtain ⟨hin, hu⟩ := hc (k₁, e, k₂) (by simp)
      have hg := run_guarded hb hm h₀ hr fun t ht => hc t (by simp [ht])
      obtain ⟨hshow', hev⟩ := hg.shows hu hin hs hshow
      rw [history_snoc, Pages.explains_append, Pages.play_append]
      refine ⟨⟨hexp, ?_⟩, hshow', fun t ht v hv => ?_⟩
      · cases he : pageEvent (k₁, e, k₂) with
        | none => exact trivial
        | some v => exact ⟨(hev v he).1, trivial⟩
      · rcases List.mem_append.mp ht with ht | ht
        · exact hall t ht v hv
        · obtain rfl := List.mem_singleton.mp ht
          exact (hev v hv).2

/-- Process 2 gets a page of process 1. -/
theorem private_memory_pair : ∃ m₀ tr k, boot 20 emptyImage 0x1000000 = some m₀ ∧
    Run (Step (stackLayout 0x18000)) (start m₀) tr k ∧
    tr.map (fun t => t.2.1) = [(.clock 3, 0), (.msg 4 1 0x400000, 1), (.msg 3 2 0x400000, 1)] ∧
    .copy (mapNr (msgEntry 1 0x400000)) (mapNr (msgEntry 2 0x400000)) ∈ history tr ∧
    (start m₀).startPages.Explains (history tr) ∧
    ∀ n ∈ pages, ∀ j w, (start m₀).startPages.play (history tr) n j = some w →
      k.mem.contents n j = w := by
  obtain ⟨m₀, tr, k, k', a, b, h₀, hr, hlabels, hc, hp, ha, hb⟩ := paired_run
  obtain ⟨hexp, hshow, -⟩ := private_memory emptyImage_bare h₀ (start_start m₀) hr hc
  refine ⟨m₀, _, k', h₀, hr, hlabels, ?_, hexp, hshow⟩
  rw [history_snoc, hp.pageEvent, ha, hb]
  exact List.mem_append_right _ (List.mem_singleton.mpr rfl)

end Kernel

end Mks
