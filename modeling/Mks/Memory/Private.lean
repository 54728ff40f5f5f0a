import Mks.Memory.Boot
import Mks.Memory.Returns
import Mks.Lib.Run

set_option autoImplicit false

/-! # Sharing and copying

The pages from 64MB on behave like those of a machine in which every page has its own memory and
`share_page` copies, as long as no counter of a frame overflows.
-/

namespace Mks.Mem

/-- What user code and the big messages do to the pages from 64MB on. -/
inductive UserOp
  | read (a : Word)
  | write (a v : Word)
  | share (fromAddr toAddr : Word)
  deriving DecidableEq

namespace UserOp

def Above : UserOp → Prop
  | read a | write a _ => a ≥ WINDOW
  | share fromAddr toAddr => fromAddr ≥ WINDOW ∧ toAddr ≥ WINDOW

/-- The operation, and the value that it reads. -/
def exec (k : Nat) (m : Mem) : UserOp → Option (Word × Mem)
  | read a => m.userRead k a
  | write a v => (m.userWrite k a v).map fun m => (0, m)
  | share fromAddr toAddr => (m.sharePage k fromAddr toAddr).map fun m => (0, m)

/-- `share_page` finds a counter that can go up. -/
def Unwrapped (m : Mem) : UserOp → Prop
  | share fromAddr _ => m.NoWrap (mapNr fromAddr)
  | _ => True

/-- The machine with private pages. -/
def ref (r : Nat → Nat → Word) : UserOp → Word × (Nat → Nat → Word)
  | read a => (r (mapNr a) (wordNr a), r)
  | write a v => (0, Function.update r (mapNr a) (Function.update (r (mapNr a)) (wordNr a) v))
  | share fromAddr toAddr => (0, Function.update r (mapNr toAddr) (r (mapNr fromAddr)))

end UserOp

def UserStep (m : Mem) (e : UserOp × Word) (m' : Mem) : Prop :=
  e.1.Above ∧ ∃ k, e.1.exec k m = some (e.2, m')

/-- The values that the machine with private pages reads, and the state it ends in. -/
def refRun (r : Nat → Nat → Word) (ops : List UserOp) : List Word × (Nat → Nat → Word) :=
  ops.foldl (fun s op => (s.1 ++ [(op.ref s.2).1], (op.ref s.2).2)) ([], r)

theorem refRun_snoc (r : Nat → Nat → Word) (ops : List UserOp) (op : UserOp) :
    refRun r (ops ++ [op]) =
      ((refRun r ops).1 ++ [(op.ref (refRun r ops).2).1], (op.ref (refRun r ops).2).2) := by
  rw [refRun, List.foldl_append]
  rfl

variable {M : MainMemory} {m m₀ m' : Mem}

/-- The pages hold what they hold in the machine with private pages. -/
structure Sim (M : MainMemory) (m : Mem) (r : Nat → Nat → Word) : Prop where
  paged : Paged M m
  own : ∀ n ∈ pages, m.Own M n
  contents : ∀ n ∈ pages, m.contents n = r n

theorem Fresh.sim (h : Fresh M m) : Sim M m fun _ _ => 0 where
  paged := h.paged
  own n hn f hf := by
    rw [space_map hn, h.unmapped hn] at hf
    cases hf
  contents n hn := contents_none (h.unmapped hn)

/-- **One operation.** -/
theorem Sim.step {r : Nat → Nat → Word} {op : UserOp} {v : Word} (h : Sim M m r)
    (hs : UserStep m (op, v) m') (hc : op.Unwrapped m) :
    v = (op.ref r).1 ∧ Sim M m' (op.ref r).2 := by
  obtain ⟨habove, k, hex⟩ := hs
  cases op with
  | read a =>
      have hn := mem_pages_of_ge habove
      obtain ⟨hP, hv⟩ := h.paged.userRead_spec habove hex
      have hq := hP.quiet h.paged hn
      refine ⟨?_, hq.paged, fun n hn => hq.own n hn (h.own n hn), fun n hn => ?_⟩
      · refine hv.trans ?_
        rw [hq.contents _ hn (h.own _ hn), h.contents _ hn]
        rfl
      · exact (hq.contents n hn (h.own n hn)).trans (h.contents n hn)
  | write a x =>
      obtain ⟨m₁, hm₁, he⟩ := Option.map_eq_some_iff.mp hex
      obtain ⟨rfl, rfl⟩ := Prod.mk.injEq .. ▸ he
      have hw := h.paged.userWrite_written habove hm₁
      refine ⟨rfl, hw.paged, fun n hn => hw.own n hn (h.own n hn), fun n hn => ?_⟩
      rw [hw.contents n hn (h.own n hn), h.contents _ (mem_pages_of_ge habove)]
      show _ = Function.update r (mapNr a) _ n
      by_cases hna : n = mapNr a
      · rw [hna, Function.update_self, Function.update_self]
      · rw [Function.update_of_ne hna, Function.update_of_ne hna, h.contents n hn]
  | share a b =>
      obtain ⟨m₁, hm₁, he⟩ := Option.map_eq_some_iff.mp hex
      obtain ⟨rfl, rfl⟩ := Prod.mk.injEq .. ▸ he
      have ha := mem_pages_of_ge habove.1
      have hsh := h.paged.sharePage_shared habove.1 habove.2 hc hm₁
      refine ⟨rfl, hsh.paged, fun n hn => hsh.own n hn (h.own n hn) fun _ => h.own _ ha,
        fun n hn => ?_⟩
      show _ = Function.update r (mapNr b) _ n
      by_cases hnb : n = mapNr b
      · rw [hnb, Function.update_self, hsh.copied (h.own _ ha), h.contents _ ha]
      · rw [Function.update_of_ne hnb, hsh.contents n hn (h.own n hn) hnb, h.contents n hn]

theorem run_sim {tr : List (Mem × (UserOp × Word) × Mem)} (h₀ : Fresh M m₀)
    (hr : Run UserStep m₀ tr m) (hc : ∀ t ∈ tr, t.2.1.1.Unwrapped t.1) :
    (refRun (fun _ _ => 0) (tr.map fun t => t.2.1.1)).1 = tr.map (fun t => t.2.1.2) ∧
      Sim M m (refRun (fun _ _ => 0) (tr.map fun t => t.2.1.1)).2 := by
  induction hr with
  | nil => exact ⟨rfl, h₀.sim⟩
  | @snoc tr m₁ m₂ e hr hs ih =>
      obtain ⟨hvals, hsim⟩ := ih fun t ht => hc t (by simp [ht])
      obtain ⟨hv, hsim'⟩ := hsim.step hs (hc (m₁, e, m₂) (by simp))
      rw [List.map_append, List.map_append, List.map_singleton, List.map_singleton, refRun_snoc]
      exact ⟨by rw [hvals, hv], hsim'⟩

/-- Every operation returns when three frames below 32MB are free. -/
theorem Paged.exec_returns (h : Paged M m) {op : UserOp} (habove : op.Above) (hf : Frees m 3) :
    ∃ v m', UserStep m (op, v) m' := by
  cases op with
  | read a =>
      obtain ⟨v, m', hm'⟩ := h.userRead_returns (k := 0) habove (hf.mono (by omega))
      exact ⟨v, m', habove, 6, hm'⟩
  | write a x =>
      obtain ⟨m', hm'⟩ := h.userWrite_returns (k := 0) habove (hf.mono (by omega)) x
      exact ⟨0, m', habove, 6, by rw [UserOp.exec, hm']; rfl⟩
  | share a b =>
      obtain ⟨m', hm'⟩ := h.sharePage_returns (k := 0) (b := b) habove.1 hf
      exact ⟨0, m', habove, 7, by rw [UserOp.exec, hm']; rfl⟩

/-- **Sharing is copying.** As long as no counter overflows, every read gives the value that it
gives in the machine with private pages, and every operation for which there are frames returns. -/
theorem sharing_is_copying {image : Mem} {memSize : Word}
    {tr : List (Mem × (UserOp × Word) × Mem)} (hb : Bare image)
    (h₀ : memInit (setupPaging image) (mainMemory memSize).1 (mainMemory memSize).2 = some m₀)
    (hr : Run UserStep m₀ tr m) (hc : ∀ t ∈ tr, t.2.1.1.Unwrapped t.1) :
    (refRun (fun _ _ => 0) (tr.map fun t => t.2.1.1)).1 = tr.map (fun t => t.2.1.2) ∧
      ∀ op : UserOp, op.Above → Frees m 3 → ∃ v m', UserStep m (op, v) m' := by
  obtain ⟨hvals, hsim⟩ := run_sim (memInit_fresh hb h₀) hr hc
  exact ⟨hvals, fun _ habove hf => hsim.paged.exec_returns habove hf⟩

/-- Three pages from 64MB on. -/
def pageA : Word := 0x4000000
def pageB : Word := 0x4001000
def pageC : Word := 0x4002000

/-- A write to a shared page is not seen through the other one. -/
theorem sharing_is_copying_write : ∃ m₀ tr m,
    memInit (setupPaging emptyImage) (mainMemory 0x1000000).1 (mainMemory 0x1000000).2 = some m₀ ∧
    Run UserStep m₀ tr m ∧ tr.map (fun t => t.2.1) = [(.write pageA 7, 0),
      (.share pageA pageB, 0), (.write pageB 9, 0), (.read pageA, 7)] ∧
    (refRun (fun _ _ => 0) (tr.map fun t => t.2.1.1)).1 = tr.map (fun t => t.2.1.2) ∧
    ∀ op : UserOp, op.Above → Frees m 3 → ∃ v m', UserStep m (op, v) m' := by
  have hex : (memInit (setupPaging emptyImage) (mainMemory 0x1000000).1
      (mainMemory 0x1000000).2).bind (fun m₀ => (m₀.userWrite 6 pageA 7).bind fun m₁ =>
        (m₁.sharePage 7 pageA pageB).bind fun m₂ => (m₂.userWrite 6 pageB 9).bind fun m₃ =>
          (m₃.userRead 6 pageA).map fun r => (m₁.frameOf (mapNr pageA), m₁.memMap 1025, r.1))
      = some (some 1025, 1, 7) := by decide +kernel
  simp only [Option.bind_eq_some_iff, Option.map_eq_some_iff, Prod.mk.injEq] at hex
  obtain ⟨m₀, h₀, m₁, h₁, m₂, h₂, m₃, h₃, ⟨v, m₄⟩, h₄, hf, hc, rfl⟩ := hex
  have hwriteA : UserStep m₀ (.write pageA 7, 0) m₁ :=
    ⟨show pageA ≥ WINDOW by decide, 6, by rw [UserOp.exec, h₁]; rfl⟩
  have hshare : UserStep m₁ (.share pageA pageB, 0) m₂ :=
    ⟨⟨by decide, by decide⟩, 7, by rw [UserOp.exec, h₂]; rfl⟩
  have hwriteB : UserStep m₂ (.write pageB 9, 0) m₃ :=
    ⟨show pageB ≥ WINDOW by decide, 6, by rw [UserOp.exec, h₃]; rfl⟩
  have hread : UserStep m₃ (.read pageA, 7) m₄ := ⟨show pageA ≥ WINDOW by decide, 6, h₄⟩
  have hr := (((Run.nil.snoc hwriteA).snoc hshare).snoc hwriteB).snoc hread
  refine ⟨m₀, _, m₄, h₀, hr, rfl, sharing_is_copying emptyImage_bare h₀ hr fun t ht => ?_⟩
  simp only [List.nil_append, List.cons_append, List.mem_cons, List.not_mem_nil, or_false] at ht
  rcases ht with rfl | rfl | rfl | rfl
  · exact trivial
  · intro f hf'
    obtain rfl := Option.some.inj (hf.symm.trans hf')
    rw [hc]
    decide
  · exact trivial
  · exact trivial

/-! ## An overflow -/

/-- Sharing once more only counts. -/
theorem sharePage_again {a b : Word} {f k : Nat} (ha : a ≥ WINDOW)
    (hf : m.frameOf (mapNr a) = some f) (hb : m.pte (mapNr b) = m.pte (mapNr a))
    (hro : m.pte (mapNr a) &&& ~~~2 = m.pte (mapNr a)) :
    sharePage (k + 1) m a b = some (m.setMap f (m.memMap f + 1)) := by
  have hmap : mapNr (m.pte (mapNr a)) = f := (entryFrame_some hf).2
  have hfb : m.frameOf (mapNr b) = some f := by rw [frameOf, hb, ← frameOf, hf]
  obtain ⟨t, ht⟩ := tableOf_of_frameOf hf
  obtain ⟨t', ht'⟩ := tableOf_of_frameOf hfb
  -- an entry is written that is there already
  have hput : ∀ {m : Mem} {n t : Nat}, m.tableOf (n / 1024) = some t → m.putPte n (m.pte n) = m := by
    intro m n t ht
    rw [Tables.putPte_eq ht, pte_some ht, put, Function.update_eq_self, Function.update_eq_self]
  have hput' : ∀ {n t : Nat} {c : BitVec 8}, m.tableOf (n / 1024) = some t →
      (m.setMap f c).putPte n (m.pte n) = m.setMap f c := fun {n t c} ht =>
    hput (m := m.setMap f c) ht
  rw [sharePage, needFromTable, tableEntry_present ht, if_pos rfl, Option.bind_some, needFromPage,
    pageEntry_frame (by rw [ht]; exact Option.some_ne_none t), hf, Option.isSome_some, if_pos rfl,
    Option.bind_some, needTable, tableEntry_present ht', if_pos rfl]
  simp only [load_pagePtr ht, hmap, hro, Option.map_some, if_pos ha]
  rw [store_pagePtr (m.setMap f _) m b _ rfl, ← hb, hput' ht', store_pagePtr (m.setMap f _) m a _ rfl,
    hb,
    hput' ht]

/-- Sharing many times. -/
theorem share_again_run {a b : Word} {f : Nat} (ha : a ≥ WINDOW) (hb : b ≥ WINDOW)
    (hf : m.frameOf (mapNr a) = some f) (hab : m.pte (mapNr b) = m.pte (mapNr a))
    (hro : m.pte (mapNr a) &&& ~~~2 = m.pte (mapNr a)) (j : Nat) :
    ∃ tr, Run UserStep m tr (m.setMap f (m.memMap f + BitVec.ofNat 8 j)) ∧
      tr.map (fun t => t.2.1) = List.replicate j (.share a b, 0) := by
  induction j with
  | zero =>
      have hsame : m.setMap f (m.memMap f + BitVec.ofNat 8 0) = m := by
        rw [BitVec.add_zero, setMap, Function.update_eq_self]
      refine ⟨[], ?_, rfl⟩
      rw [hsame]
      exact .nil
  | succ j ih =>
      obtain ⟨tr, hr, htr⟩ := ih
      have hnext : (m.setMap f (m.memMap f + BitVec.ofNat 8 j)).setMap f
          ((m.setMap f (m.memMap f + BitVec.ofNat 8 j)).memMap f + 1)
          = m.setMap f (m.memMap f + BitVec.ofNat 8 (j + 1)) := by
        simp only [setMap, Function.update_idem, Function.update_self]
        rw [BitVec.add_assoc, BitVec.ofNat_add]
        rfl
      refine ⟨_, hr.snoc (e := (UserOp.share a b, 0)) ⟨⟨ha, hb⟩, 1, ?_⟩, ?_⟩
      · have hagain := sharePage_again (m := m.setMap f (m.memMap f + BitVec.ofNat 8 j)) (k := 0)
          (b := b) ha hf hab hro
        rw [hnext] at hagain
        show (sharePage (0 + 1) _ a b).map _ = _
        rw [hagain]
        rfl
      · rw [List.map_append, htr, List.replicate_succ']
        rfl

/-- Page `A` is written and shared 255 times with page `B`, then page `C` is used. -/
def overflowOps : List (UserOp × Word) :=
  (.write pageA 7, 0) :: List.replicate 255 (.share pageA pageB, 0) ++
    [(.read pageC, 0), (.read pageA, 0)]

/-- The counter of the frame of `A` and `B` is 0 in the end, page `C` gets the frame cleared, and
the value written to page `A` is lost. -/
theorem overflow : ∃ m₀ tr m,
    memInit (setupPaging emptyImage) (mainMemory 0x1000000).1 (mainMemory 0x1000000).2 = some m₀ ∧
    Run UserStep m₀ tr m ∧ tr.map (fun t => t.2.1) = overflowOps ∧
    (refRun (fun _ _ => 0) (tr.map fun t => t.2.1.1)).1 ≠ tr.map fun t => t.2.1.2 := by
  -- after the first sharing both pages map frame 1025, read-only
  have hex : (memInit (setupPaging emptyImage) (mainMemory 0x1000000).1
      (mainMemory 0x1000000).2).bind (fun m₀ => (m₀.userWrite 6 pageA 7).bind fun m₁ =>
        (m₁.sharePage 7 pageA pageB).bind fun m₂ =>
          ((m₂.setMap 1025 0).userRead 6 pageC).bind fun r =>
            (r.2.userRead 6 pageA).map fun r' =>
              (m₂.frameOf (mapNr pageA), m₂.pte (mapNr pageA), m₂.pte (mapNr pageB),
                m₂.memMap 1025, r.1, r'.1))
      = some (some 1025, 0x401005, 0x401005, 2, 0, 0) := by decide +kernel
  simp only [Option.bind_eq_some_iff, Option.map_eq_some_iff, Prod.mk.injEq] at hex
  obtain ⟨m₀, h₀, m₁, h₁, m₂, h₂, ⟨v, m₄⟩, h₄, ⟨v', m₅⟩, h₅, hf, hA, hB, hc, rfl, rfl⟩ := hex
  obtain ⟨tr, hr, htr⟩ := share_again_run (a := pageA) (b := pageB) (m := m₂) (by decide)
    (by decide) hf (by rw [hA, hB]) (by rw [hA]; decide) 254
  have hwrap : m₂.memMap 1025 + BitVec.ofNat 8 254 = 0 := by rw [hc]; decide
  rw [hwrap] at hr
  have hwrite : UserStep m₀ (.write pageA 7, 0) m₁ :=
    ⟨show pageA ≥ WINDOW by decide, 6, by rw [UserOp.exec, h₁]; rfl⟩
  have hshare : UserStep m₁ (.share pageA pageB, 0) m₂ :=
    ⟨⟨by decide, by decide⟩, 7, by rw [UserOp.exec, h₂]; rfl⟩
  have hreadC : UserStep (m₂.setMap 1025 0) (.read pageC, 0) m₄ :=
    ⟨show pageC ≥ WINDOW by decide, 6, h₄⟩
  have hreadA : UserStep m₄ (.read pageA, 0) m₅ := ⟨show pageA ≥ WINDOW by decide, 6, h₅⟩
  have hrun := (((Run.nil.snoc hwrite).snoc hshare).append hr).snoc hreadC |>.snoc hreadA
  have hlabels : List.map (fun t => t.2.1) (([] ++ [(m₀, (UserOp.write pageA 7, (0 : Word)), m₁)] ++
      [(m₁, (.share pageA pageB, 0), m₂)] ++ tr) ++ [(m₂.setMap 1025 0, (.read pageC, 0), m₄)] ++
      [(m₄, (.read pageA, 0), m₅)]) = overflowOps := by
    have hmany : List.replicate 255 (UserOp.share pageA pageB, (0 : Word))
        = (.share pageA pageB, 0) :: List.replicate 254 (.share pageA pageB, 0) :=
      List.replicate_succ ..
    rw [overflowOps, hmany, ← htr]
    simp
  refine ⟨m₀, _, m₅, h₀, hrun, hlabels, ?_⟩
  have hdiff : (refRun (fun _ _ => 0) (overflowOps.map Prod.fst)).1 ≠ overflowOps.map Prod.snd := by
    decide +kernel
  rw [← hlabels, List.map_map, List.map_map] at hdiff
  exact hdiff

end Mks.Mem
