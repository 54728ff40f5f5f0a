import Mks.Memory.Footprint
import Mks.Memory.Growth

set_option autoImplicit false

/-! # One iteration of `share_multi_pages`

`share_page` gives page `to` the frame of page `from`; where that frame comes from says `Source`.
What it does elsewhere is bounded by `Grows`, so that a page that has been shared stays shared
(`SharedAs.mono`) and a page that is still to be shared is as it was (`SharedAs.after`).

The counters have eight bits: an iteration needs `Room` in them and leaves room for the next ones.
-/

namespace Mks.Mem

variable {m m' m₁ m₂ : Mem} {s : Set Nat} {a b : Word} {n c f k : Nat}

/-! ## One page -/

/-- Where the frame of page `n` comes from. -/
inductive Source (m m' : Mem) (n f : Nat) : Prop
  | mapped (hf : m.frameOf n = some f)
  | window (habs : m.frameOf n = none) (hn : n < 16384) (hf : f = n)
  | fresh (habs : m.frameOf n = none) (hn : 16384 ≤ n) (hun : m.memMap f = UNUSED)
      (hused : m'.memMap f ≠ UNUSED) (hu : Unlinked m' f) (hz : m'.phys f = zeroFrame)

theorem Grows.unused (hg : Grows s m m') (hun : m'.memMap f = UNUSED) : m.memMap f = UNUSED := by
  by_contra hne
  exact hg.used f hne hun

/-- A new frame stays as it is. -/
theorem Source.mono (hs : Source m m₁ n f) (hg : Grows s m₁ m') : Source m m' n f := by
  cases hs with
  | mapped hf => exact .mapped hf
  | window habs hn hf => exact .window habs hn hf
  | fresh habs hn hun hused hu hz =>
      refine .fresh habs hn hun (hg.used f hused) ⟨hu.ne_dir, fun d hd ht => ?_⟩ ?_
      · rcases hg.table d hd f ht with hold | hnew
        · exact hu.ne_table d hd hold
        · exact hused hnew
      · exact (hg.phys f hused hu.ne_dir hu.ne_table).trans hz

/-- The page has not been touched before. -/
theorem Source.after (hs : Source m₁ m' n f) (hg : Grows s m m₁) (hn : n < 1048576) (hno : n ∉ s) :
    Source m m' n f := by
  have habs : m₁.frameOf n = none → m.frameOf n = none := by
    intro h₁
    rcases hg.frameOf_or hn hno with he | ⟨-, -, hf⟩
    · rw [← he, h₁]
    · rw [h₁] at hf
      cases hf
  cases hs with
  | mapped hf =>
      rcases hg.frameOf_or hn hno with he | ⟨hlt, habs, hf'⟩
      · exact .mapped (he ▸ hf)
      · rw [hf] at hf'
        exact .window habs hlt (Option.some.inj hf')
  | window h₁ hlt hf => exact .window (habs h₁) hlt hf
  | fresh h₁ hge hun hused hu hz => exact .fresh (habs h₁) hge (hg.unused hun) hused hu hz

/-- The page `from` is mapped at last. -/
theorem FromReady.source (hR : FromReady a m m') (h : Regular m) :
    ∃ f, m'.frameOf (mapNr a) = some f ∧ Source m m' (mapNr a) f := by
  cases hR with
  | here hf =>
      obtain ⟨f, hf⟩ := Option.ne_none_iff_exists'.mp hf
      exact ⟨f, hf, .mapped hf⟩
  | window habs hT ha =>
      obtain ⟨-, -, hf⟩ := (hT.regular h).mapSelf (hT.table h)
      exact ⟨_, hf, .window habs ((lt_window a).mp ha) rfl⟩
  | @page m₁ m₂ i habs hT ha ho =>
      have hob := ho.obtained (hT.regular h)
      have ht := hob.table (hT.table h)
      obtain ⟨-, hT', hf⟩ := hob.page ha (hT.table h)
      refine ⟨i, hf, .fresh habs (window_le ha) ((hT.grows h).unused hob.free) ?_
        (hob.unlinked.congr hT') ?_⟩
      · rw [putPte_memMap, hob.count]
        decide
      · -- the entry is written to another frame
        obtain ⟨t, ht⟩ := Option.ne_none_iff_exists'.mp ht
        have hit : i ≠ t := fun e => hob.unlinked.ne_table _ (block_lt a) (e ▸ ht)
        rw [Tables.putPte_eq ht, put_phys_of_ne hit, hob.cleared]

/-- The end of `share_page`. -/
def shareEnd (m : Mem) (n c f : Nat) : Mem := if 16384 ≤ n then m.share n c f else m.link n c f

theorem shareEnd_memMap (m : Mem) (n c f : Nat) :
    (m.shareEnd n c f).memMap = Function.update m.memMap f (m.memMap f + 1) := by
  unfold shareEnd
  split_ifs <;> rfl

section
variable (h : Tables m) (hn : n < 1048576) (hc : c < 1048576) (hf : m.frameOf n = some f)
  (ht : m.tableOf (c / 1024) ≠ none)
include h hn hc hf ht

theorem Tables.shareEnd_tableOf : (m.shareEnd n c f).tableOf = m.tableOf := by
  obtain ⟨t, ht⟩ := Option.ne_none_iff_exists'.mp ht
  have hT := h.tableOf_link (a := n) (f := f) hc ht
  unfold Mem.shareEnd
  split_ifs
  · obtain ⟨t', ht'⟩ := tableOf_of_frameOf hf
    exact ((h.congr hT).tableOf_putPte hn (hT ▸ ht') _).trans hT
  · exact hT

theorem Tables.shareEnd_pte {x : Nat} (hx : x < 1048576) : (m.shareEnd n c f).pte x =
    if x = c ∨ 16384 ≤ n ∧ x = n then m.pte n &&& ~~~2 else m.pte x := by
  obtain ⟨t, ht⟩ := Option.ne_none_iff_exists'.mp ht
  unfold Mem.shareEnd
  split_ifs with hge hxc hxc
  · rw [h.pte_share hn hc ht hf hx, if_pos (by tauto)]
  · rw [h.pte_share hn hc ht hf hx, if_neg (by tauto)]
  · rw [h.pte_link hc ht hx, if_pos (by tauto)]
  · rw [h.pte_link hc ht hx, if_neg (by tauto)]

/-- Neither page changes its frame but `c`, which gets that of `n`. -/
theorem Tables.shareEnd_frameOf {x : Nat} (hx : x = n ∨ x = c) :
    (m.shareEnd n c f).frameOf x = some f := by
  have hx' : x < 1048576 := by
    rcases hx with rfl | rfl
    · exact hn
    · exact hc
  rw [frameOf, h.shareEnd_pte hn hc hf ht hx']
  split_ifs with hxc
  · rw [entryFrame_readOnly]
    exact hf
  · obtain rfl : x = n := hx.resolve_right fun e => hxc (.inl e)
    exact hf

theorem Tables.shareEnd_readOnly {x : Nat} (hx : x = c ∨ 16384 ≤ n ∧ x = n) :
    writable ((m.shareEnd n c f).pte x) = false := by
  have hx' : x < 1048576 := by
    rcases hx with rfl | ⟨-, rfl⟩
    · exact hc
    · exact hn
  rw [h.shareEnd_pte hn hc hf ht hx', if_pos hx, writable_readOnly]

variable (hcount : m.memMap f ≠ 255)
include hcount

theorem Tables.grows_shareEnd : Grows {n, c} m (m.shareEnd n c f) := by
  unfold Mem.shareEnd
  split_ifs
  · exact h.grows_share hn hc hf ht hcount
  · exact (h.grows_link hc ht hcount).mono (Set.subset_insert _ _)

end

/-- A page of a process, or one of the window whose own frame is in use, gets a frame. -/
theorem Regular.shareEnd (h : Regular m) (hn : n < 1048576) (hc : c < 1048576)
    (hf : m.frameOf n = some f) (ht : m.tableOf (c / 1024) ≠ none) (hcount : m.memMap f ≠ 255)
    (hto : 16384 ≤ c ∨ m.memMap c ≠ UNUSED) : Regular (m.shareEnd n c f) := by
  have hset := h.setMap f (add_one_ne_unused hcount)
  have hlink : Regular (m.link n c f) := by
    refine hset.putPte hc ht fun hlt hun => ?_
    have hlt : c < 16384 := hlt
    refine absurd (memMap_setMap (add_one_ne_unused hcount) hun).2 ?_
    exact hto.resolve_left (by omega)
  unfold Mem.shareEnd
  split_ifs with hge
  · refine hlink.putPte hn ?_ fun hlt => ?_
    · obtain ⟨t, ht⟩ := Option.ne_none_iff_exists'.mp ht
      rw [h.tables.tableOf_link hc ht]
      exact covered_of_frameOf hf
    · have hlt : n < 16384 := hlt
      omega
  · exact hlink

/-- What `share_page` does when its loops have ended. -/
theorem Regular.sharePage_result (h : Regular m) (hr : sharePage k m a b = some m') :
    ∃ m₂ m₃, FromReady a m m₂ ∧ TableMade (mapNr b / 1024) m₂ m₃ ∧
      ∀ f, m₂.frameOf (mapNr a) = some f → m' = m₃.shareEnd (mapNr a) (mapNr b) f := by
  rw [sharePage] at hr
  obtain ⟨m₁, hr₁, hr⟩ := Option.bind_eq_some_iff.mp hr
  obtain ⟨m₂, hr₂, hr⟩ := Option.bind_eq_some_iff.mp hr
  obtain ⟨m₃, hr₃, he⟩ := Option.map_eq_some_iff.mp hr
  have hR := h.needFrom_iff.mp ⟨k, m₁, hr₁, hr₂⟩
  have h₂ := hR.regular h
  have hT := h₂.needTable_iff.mp ⟨k, hr₃⟩
  have h₃ := hT.regular h₂
  refine ⟨m₂, m₃, hR, hT, fun f hf => ?_⟩
  -- the pages keep their tables while the page table for `to` is made
  have hdir := hT.dir_kept h₂ (covered_of_frameOf hf)
  have hentry : m₂.tableEntry a = m₃.tableEntry a := by rw [tableEntry_eq, tableEntry_eq, hdir]
  have hf₃ := hT.frame_kept h₂ (mapNr_lt a) hf
  obtain ⟨t, ht₃⟩ := tableOf_of_frameOf hf₃
  have hnr : mapNr (m₃.pte (mapNr a)) = f := (entryFrame_some hf₃).2
  obtain ⟨tb, htb⟩ := Option.ne_none_iff_exists'.mp (hT.table h₂)
  have htodir : m₃.phys 7 = (m₃.link (mapNr a) (mapNr b) f).phys 7 :=
    ((h₃.tables.setMap f _).dir_putPte (mapNr_lt b) htb _).symm
  have hge : a ≥ WINDOW ↔ 16384 ≤ mapNr a := by
    rw [ge_iff_le, ← BitVec.not_lt, lt_window]
    omega
  simp only [hentry, load_pagePtr ht₃, hnr] at he
  rw [store_pagePtr (m₃.setMap f _) m₃ b _ rfl] at he
  rw [← he, Mem.shareEnd]
  by_cases hw : 16384 ≤ mapNr a
  · rw [if_pos (hge.mpr hw), if_pos hw]
    exact store_pagePtr _ m₃ a _ htodir
  · rw [if_neg fun hge' => hw (hge.mp hge'), if_neg hw]
    rfl

/-- Page `n` is shared as page `c`. -/
structure SharedAs (m : Mem) (n c : Nat) (m' : Mem) : Prop where
  frame : ∃ f, m'.frameOf n = some f ∧ m'.frameOf c = some f ∧ Source m m' n f
  toReadOnly : writable (m'.pte c) = false
  fromReadOnly : 16384 ≤ n → writable (m'.pte n) = false

/-- Later calls do not touch these pages. -/
theorem SharedAs.mono (hS : SharedAs m n c m₁) (hg : Grows s m₁ m') (hn : n < 1048576)
    (hc : c < 1048576) (hns : n ∉ s) (hcs : c ∉ s) : SharedAs m n c m' := by
  obtain ⟨f, hf, hf', hsrc⟩ := hS.frame
  have hpte : ∀ x < 1048576, x ∉ s → m₁.frameOf x = some f → m'.pte x = m₁.pte x := by
    intro x hx hno hxf
    rcases hg.pte x hx hno with hp | ⟨-, habs, -⟩
    · exact hp
    · rw [hxf] at habs
      cases habs
  constructor
  case frame =>
    exact ⟨f, hg.frame_kept hn hns hf, hg.frame_kept hc hcs hf', hsrc.mono hg⟩
  case toReadOnly =>
    rw [hpte c hc hcs hf']
    exact hS.toReadOnly
  case fromReadOnly =>
    rw [hpte n hn hns hf]
    exact hS.fromReadOnly

theorem SharedAs.after (hS : SharedAs m₁ n c m') (hg : Grows s m m₁) (hn : n < 1048576)
    (hno : n ∉ s) : SharedAs m n c m' := by
  obtain ⟨f, hf, hf', hsrc⟩ := hS.frame
  exact ⟨⟨f, hf, hf', hsrc.after hg hn hno⟩, hS.toReadOnly, hS.fromReadOnly⟩

/-! ## The counters -/

/-- The frame that `share_page` finds or puts behind a page, unless it takes a new one. -/
def backing (m : Mem) (n : Nat) : Option Nat :=
  (m.frameOf n).or (if n < 16384 then some n else none)

/-- The counters have room for one more reference from each of `amount` pages from page `p` on. -/
def Room (m : Mem) (p amount : Nat) : Prop :=
  ∀ f, (m.memMap f).toNat + (List.range' p amount).countP (fun n => m.backing n = some f) ≤ 255

/-- The frames that are mapped are in use, but for those that their own kernel pages map. -/
def Held (m : Mem) : Prop :=
  ∀ n < 1048576, ∀ f, m.frameOf n = some f → m.memMap f ≠ UNUSED ∨ n < 16384 ∧ f = n

theorem toNat_ne_255 {c : BitVec 8} (h : c.toNat < 255) : c ≠ 255 := by
  rintro rfl
  exact absurd h (by decide)

theorem backing_mapped (hf : m.frameOf n = some f) : m.backing n = some f := by
  rw [backing, hf, Option.some_or]

theorem backing_absent (habs : m.frameOf n = none) :
    m.backing n = if n < 16384 then some n else none := by
  rw [backing, habs, Option.none_or]

/-- A page that is not touched keeps its frame, which may have been mapped in the meantime. -/
theorem Grows.backing (hg : Grows s m m') (hn : n < 1048576) (hno : n ∉ s) :
    m'.backing n = m.backing n := by
  rcases hg.frameOf_or hn hno with he | ⟨hlt, habs, hf⟩
  · rw [Mem.backing, he, Mem.backing]
  · rw [backing_mapped hf, backing_absent habs, if_pos hlt]

/-- A frame that only its own page gives away is given away once. -/
theorem countP_backing_le {p amount : Nat}
    (h : ∀ n ∈ List.range' p amount, m.backing n = some f → n = f) :
    (List.range' p amount).countP (fun n => m.backing n = some f) ≤ 1 := by
  calc (List.range' p amount).countP (fun n => m.backing n = some f)
      ≤ (List.range' p amount).count f := List.countP_mono_left fun n hn hback =>
        beq_iff_eq.mpr (h n hn (of_decide_eq_true hback))
    _ ≤ 1 := List.nodup_iff_count_le_one.mp List.nodup_range' f

theorem Held.countP_le (hR : m.Held) (hun : m.memMap f = UNUSED) {p amount : Nat}
    (hp : p + amount ≤ 1048576) :
    (List.range' p amount).countP (fun n => m.backing n = some f) ≤ 1 := by
  refine countP_backing_le fun n hn hback => ?_
  have hlt := (List.mem_range'_1.mp hn).2
  cases hf : m.frameOf n with
  | some g =>
      rw [backing_mapped hf] at hback
      obtain rfl := Option.some.inj hback
      rcases hR n (by omega) g hf with hused | ⟨-, hgn⟩
      · exact absurd hun hused
      · exact hgn.symm
  | none =>
      rw [backing_absent hf] at hback
      split_ifs at hback
      exact Option.some.inj hback

theorem Takes.trans (h : Takes m m₁) (h' : Takes m₁ m₂) : Takes m m₂ := by
  intro f
  rcases h f with he | ⟨hun, he⟩
  · rcases h' f with he' | ⟨hun', he'⟩
    · exact .inl (he'.trans he)
    · exact .inr ⟨he ▸ hun', he'⟩
  · rcases h' f with he' | ⟨hun', -⟩
    · exact .inr ⟨hun, he'.trans he⟩
    · rw [he] at hun'
      exact absurd hun' (by decide)

theorem Allocated.takes {i : Nat} {js : List Nat} (hA : Allocated m i js m') : Takes m m' := by
  intro f
  rw [hA.memMap]
  split_ifs with hm
  · exact .inr ⟨(hA.free f hm).2, rfl⟩
  · exact .inl rfl

theorem Obtains.takes {i : Nat} (ho : Obtains m i m') (h : Regular m) : Takes m m' := by
  cases ho with
  | now ha _ => exact (h.allocated ha).takes
  | later h0 ha =>
      have hA := h.allocated h0
      exact hA.takes.trans ((hA.regular h).allocated ha).takes

theorem TableMade.takes {d : Nat} (hT : TableMade d m m') (h : Regular m) : Takes m m' := by
  cases hT with
  | here _ => exact fun _ => .inl rfl
  | made _ ho => exact ho.takes h

theorem FromReady.takes (hR : FromReady a m m') (h : Regular m) : Takes m m' := by
  cases hR with
  | here _ => exact fun _ => .inl rfl
  | window _ hT _ => exact hT.takes h
  | page _ hT _ ho => exact (hT.takes h).trans (ho.takes (hT.regular h))

/-- The frame of the page is its backing, or new. -/
theorem Source.backing (hs : Source m m' n f) : m.backing n = some f ∨
    m.memMap f = UNUSED ∧ m'.memMap f ≠ UNUSED := by
  cases hs with
  | mapped hf => exact .inl (backing_mapped hf)
  | window habs hn hf => exact .inl (by rw [backing_absent habs, if_pos hn, hf])
  | fresh _ _ hun hused _ _ => exact .inr ⟨hun, hused⟩

/-- There is room for the reference of the first page. -/
theorem Room.ne_255 {p amount : Nat} (hroom : m.Room p (amount + 1)) (hs : Source m m' p f)
    (ht : Takes m m') : m'.memMap f ≠ 255 := by
  rcases ht f with he | ⟨-, he⟩
  · rw [he]
    have hback : m.backing p = some f := by
      rcases hs.backing with hb | ⟨hun, hused⟩
      · exact hb
      · exact absurd (he.trans hun) hused
    have hf := hroom f
    rw [List.range'_succ, List.countP_cons, if_pos (decide_eq_true hback)] at hf
    exact toNat_ne_255 (by omega)
  · rw [he]
    decide

/-! ## The free frames -/

/-- The number of frames that a page table for block `d` needs. -/
def tableNeed (m : Mem) (d : Nat) : Nat := if m.tableOf d = none then 1 else 0

/-- The number of frames that `share_page` needs for the page `from` itself. -/
def pageNeed (m : Mem) (a : Word) : Nat :=
  if a < WINDOW ∨ m.frameOf (mapNr a) ≠ none then 0 else 1

/-- The frames that `share_page` needs. -/
def shareNeed (m : Mem) (fromAddr toAddr : Word) : Nat :=
  m.tableNeed (mapNr fromAddr / 1024) + m.pageNeed fromAddr +
    if mapNr toAddr / 1024 = mapNr fromAddr / 1024 then 0 else m.tableNeed (mapNr toAddr / 1024)

theorem tableNeed_spec (m : Mem) (d : Nat) : m.stock.table d = true ∨ 1 ≤ m.tableNeed d := by
  unfold tableNeed
  by_cases ht : m.tableOf d = none
  · rw [if_pos ht]
    exact .inr le_rfl
  · exact .inl (stock_table.mpr ht)

/-- There are frames for the page `from`. -/
theorem lasts_from {r : Nat}
    (hs : m.stock.Lasts (m.tableNeed (mapNr a / 1024) + m.pageNeed a + r)) :
    m.MapsFrom a ∧ (m.stockFrom a).Lasts r ∧
      ∀ e, (m.stockFrom a).table e = (m.stock.table e || e = mapNr a / 1024) := by
  unfold MapsFrom stockFrom
  rw [Nat.add_assoc] at hs
  obtain ⟨ht, hl, htable⟩ := hs.getTable (tableNeed_spec m _)
  by_cases hf : m.frameOf (mapNr a) = none
  · rw [if_neg (not_not.mpr hf)]
    by_cases ha : a < WINDOW
    · rw [if_pos ha]
      exact ⟨.inr ⟨ht, .inl ha⟩, hl.mono (Nat.le_add_left ..), htable⟩
    · have hone : m.pageNeed a = 1 := if_neg (by simp [ha, hf])
      rw [hone, Nat.add_comm] at hl
      obtain ⟨hr, hl', htable'⟩ := hl.ready
      rw [if_neg ha]
      exact ⟨.inr ⟨ht, .inr hr⟩, hl', fun e => by rw [htable', htable]⟩
  · have hA : m.stock.table (mapNr a / 1024) = true := by
      obtain ⟨f, hf⟩ := Option.ne_none_iff_exists'.mp hf
      exact stock_table.mpr (covered_of_frameOf hf)
    rw [if_pos hf]
    refine ⟨.inl hf, hs.mono (by omega), fun e => ?_⟩
    rw [← htable e, Stock.getTable, if_pos hA]

/-- There are frames for the page table for `to`, too. -/
theorem lasts_share {r : Nat} (hs : m.stock.Lasts (m.shareNeed a b + r)) :
    m.MapsFrom a ∧ (m.stockFrom a).HasTable (mapNr b / 1024) ∧
      ((m.stockFrom a).getTable (mapNr b / 1024)).Lasts r := by
  rw [shareNeed, Nat.add_assoc] at hs
  obtain ⟨hm, hl, htable⟩ := lasts_from hs
  have hto : (m.stockFrom a).table (mapNr b / 1024) = true ∨
      1 ≤ if mapNr b / 1024 = mapNr a / 1024 then 0 else m.tableNeed (mapNr b / 1024) := by
    rw [htable]
    split_ifs with hab
    · exact .inl (by rw [decide_eq_true hab, Bool.or_true])
    · rcases tableNeed_spec m (mapNr b / 1024) with ht | hone
      · exact .inl (by rw [ht, Bool.true_or])
      · exact .inr hone
  obtain ⟨ht, hl', -⟩ := hl.getTable hto
  exact ⟨hm, ht, hl'⟩

/-- The frame of a page is shared: it is no longer free, if it was. -/
theorem stock_share {c : BitVec 8} (hc : c ≠ UNUSED)
    (hm : m'.memMap = Function.update m.memMap f c) (hT : m'.tableOf = m.tableOf) :
    m'.stock.free = m.stock.free.erase f ∧ m'.stock.table = m.stock.table := by
  constructor
  · rw [List.Nodup.erase_eq_filter m.stock.nodup]
    refine (unused_update hc hm _).trans (List.filter_congr fun g _ => ?_)
    rw [bne, Bool.beq_eq_decide_eq, decide_not]
  · funext d
    show (m'.tableOf d).isSome = _
    rw [hT]
    rfl

/-! ## One iteration -/

/-- The frame that a page of the window gives away itself. -/
def ownNeed (m : Mem) (n : Nat) : Nat := if n < 16384 ∧ m.memMap n = UNUSED then 1 else 0

/-- What one iteration of the loop leaves for the next ones. -/
structure Iteration (a b : Word) (amount : Nat) (m m' : Mem) : Prop where
  regular : Regular m'
  grows : Grows {mapNr a, mapNr b} m m'
  shared : SharedAs m (mapNr a) (mapNr b) m'
  held : m'.Held
  room : m'.Room (mapNr a + 1) amount
  table : ∀ e, m'.tableOf e = none →
    (m.tableOf e = none ∧ e ≠ mapNr a / 1024) ∧ e ≠ mapNr b / 1024
  lasts : ∀ r, m.stock.Lasts (m.shareNeed a b + (m.ownNeed (mapNr a) + r)) → m'.stock.Lasts r

theorem Room.step {p q amount : Nat} (hroom : m.Room p (amount + 1)) (hR : m.Held)
    (hp : p + (amount + 1) ≤ 1048576) (hq : q < p ∨ p + amount < q)
    (hg : Grows {p, q} m m') (ht : Takes m m₁) (hsrc : Source m m₁ p f) (hcount : m₁.memMap f ≠ 255)
    (hm : m'.memMap = Function.update m₁.memMap f (m₁.memMap f + 1)) :
    m'.Room (p + 1) amount := by
  intro g
  -- the remaining pages keep their frames
  have hback : ∀ n ∈ List.range' (p + 1) amount, m'.backing n = m.backing n := by
    intro n hn
    have hrange := List.mem_range'_1.mp hn
    refine hg.backing (by omega) ?_
    rintro (rfl | rfl)
    · omega
    · omega
  have hcnt : (List.range' (p + 1) amount).countP (fun n => m'.backing n = some g)
      = (List.range' (p + 1) amount).countP (fun n => m.backing n = some g) :=
    List.countP_congr fun n hn => by rw [hback n hn]
  have hcons := hroom g
  rw [List.range'_succ, List.countP_cons] at hcons
  rw [hcnt, hm, Function.update_apply]
  rcases ht g with he | ⟨hun, he⟩
  · split_ifs with hgf
    · -- the shared frame loses one of its pages
      subst hgf
      have hbackp : m.backing p = some g := by
        rcases hsrc.backing with hb | ⟨hun, hused⟩
        · exact hb
        · exact absurd (he.trans hun) hused
      rw [if_pos (decide_eq_true hbackp)] at hcons
      rw [toNat_add_one hcount, he]
      omega
    · rw [he]
      omega
  · have hone : (List.range' (p + 1) amount).countP (fun n => m.backing n = some g) ≤ 1 :=
      hR.countP_le hun (by omega)
    have h1 : (1 : BitVec 8).toNat = 1 := rfl
    split_ifs with hgf
    · subst hgf
      rw [toNat_add_one hcount, he]
      omega
    · rw [he]
      omega

theorem Held.step {p q : Nat} (hR : m.Held) (hg : Grows {p, q} m m')
    (hp : m'.frameOf p = some f) (hq : m'.frameOf q = some f) (hf : m'.memMap f ≠ UNUSED) :
    m'.Held := by
  intro n hn g hfg
  by_cases hno : n ∈ ({p, q} : Set Nat)
  · rcases hno with rfl | rfl
    · rw [hp] at hfg
      exact .inl (Option.some.inj hfg ▸ hf)
    · rw [hq] at hfg
      exact .inl (Option.some.inj hfg ▸ hf)
  · rcases hg.frameOf_or hn hno with he | ⟨hlt, -, hf'⟩
    · rw [he] at hfg
      exact (hR n hn g hfg).imp_left (hg.used g)
    · rw [hf'] at hfg
      exact .inr ⟨hlt, (Option.some.inj hfg).symm⟩

/-- A free frame that is shared belongs to a page of the window. -/
theorem Source.ownNeed {p : Nat} (hs : Source m m' p f) (hR : m.Held) (hp : p < 1048576)
    (hg : Grows s m m') (hun : m'.memMap f = UNUSED) : m.ownNeed p = 1 := by
  have hunf := hg.unused hun
  cases hs with
  | mapped hf =>
      rcases hR p hp f hf with hused | ⟨hlow, rfl⟩
      · exact absurd hunf hused
      · exact if_pos ⟨hlow, hunf⟩
  | window _ hlow hfp => exact if_pos ⟨hlow, hfp ▸ hunf⟩
  | fresh _ _ _ hused _ _ => exact absurd hun hused

theorem TableMade.tableOf_none {d e : Nat} (hT : TableMade d m m') (h : Regular m)
    (he : m'.tableOf e = none) : m.tableOf e = none ∧ e ≠ d := by
  constructor
  · by_contra hne
    rw [tableOf, hT.dir_kept h hne] at he
    exact hne he
  · rintro rfl
    exact hT.table h he

theorem FromReady.tableOf_none {e : Nat} (hR : FromReady a m m') (h : Regular m)
    (he : m'.tableOf e = none) : m.tableOf e = none ∧ e ≠ mapNr a / 1024 := by
  cases hR with
  | here hf =>
      refine ⟨he, ?_⟩
      rintro rfl
      obtain ⟨f, hf⟩ := Option.ne_none_iff_exists'.mp hf
      exact covered_of_frameOf hf he
  | window _ hT _ =>
      obtain ⟨-, hT', -⟩ := (hT.regular h).mapSelf (hT.table h)
      exact hT.tableOf_none h (hT' ▸ he)
  | @page m₁ m₂ i _ hT ha ho =>
      have hob := ho.obtained (hT.regular h)
      obtain ⟨-, hT', -⟩ := hob.page ha (hT.table h)
      refine hT.tableOf_none h ?_
      by_contra hne
      exact hob.table hne (hT' ▸ he)

theorem Regular.sharePage_iteration (h : Regular m) (hR : m.Held) {amount : Nat}
    (hroom : m.Room (mapNr a) (amount + 1))
    (hto : 16384 ≤ mapNr b ∨ m.memMap (mapNr b) ≠ UNUSED)
    (ha : mapNr a + (amount + 1) ≤ 1048576)
    (hab : mapNr b < mapNr a ∨ mapNr a + amount < mapNr b) (hr : sharePage k m a b = some m') :
    Iteration a b amount m m' := by
  obtain ⟨m₂, m₃, hF, hT, hend⟩ := h.sharePage_result hr
  have h₂ := hF.regular h
  have h₃ := hT.regular h₂
  have ht₃ := hT.table h₂
  obtain ⟨f, hf, hsrc₂⟩ := hF.source h
  have hf₃ := hT.frame_kept h₂ (mapNr_lt a) hf
  have hsrc := hsrc₂.mono (hT.grows h₂)
  have htakes := (hF.takes h).trans (hT.takes h₂)
  have hc₃ : m₃.memMap f ≠ 255 := hroom.ne_255 hsrc htakes
  have hg₃ : Grows {mapNr a} m m₃ := (hF.grows h).trans ((hT.grows h₂).mono (Set.empty_subset _))
  have he := hend f hf
  have hend₃ : Grows {mapNr a, mapNr b} m₃ m' :=
    he ▸ h₃.tables.grows_shareEnd (mapNr_lt a) (mapNr_lt b) hf₃ ht₃ hc₃
  have hg : Grows {mapNr a, mapNr b} m m' :=
    (hg₃.mono (Set.singleton_subset_iff.mpr (Set.mem_insert ..))).trans hend₃
  have hmap : m'.memMap = Function.update m₃.memMap f (m₃.memMap f + 1) := he ▸ shareEnd_memMap ..
  have hT' : m'.tableOf = m₃.tableOf :=
    he ▸ h₃.tables.shareEnd_tableOf (mapNr_lt a) (mapNr_lt b) hf₃ ht₃
  have hfrom : m'.frameOf (mapNr a) = some f :=
    he ▸ h₃.tables.shareEnd_frameOf (mapNr_lt a) (mapNr_lt b) hf₃ ht₃ (.inl rfl)
  have hframe : m'.frameOf (mapNr b) = some f :=
    he ▸ h₃.tables.shareEnd_frameOf (mapNr_lt a) (mapNr_lt b) hf₃ ht₃ (.inr rfl)
  constructor
  case regular =>
    exact he ▸ h₃.shareEnd (mapNr_lt a) (mapNr_lt b) hf₃ ht₃ hc₃ (hto.imp_right (hg₃.used _))
  case grows => exact hg
  case shared =>
    refine ⟨⟨f, hfrom, hframe, hsrc.mono hend₃⟩, ?_, fun hge => ?_⟩
    · exact he ▸ h₃.tables.shareEnd_readOnly (mapNr_lt a) (mapNr_lt b) hf₃ ht₃ (.inl rfl)
    · exact he ▸ h₃.tables.shareEnd_readOnly (mapNr_lt a) (mapNr_lt b) hf₃ ht₃ (.inr ⟨hge, rfl⟩)
  case held =>
    refine hR.step hg hfrom hframe ?_
    rw [hmap, Function.update_self]
    exact add_one_ne_unused hc₃
  case room => exact hroom.step hR ha hab hg htakes hsrc hc₃ hmap
  case table =>
    intro e hnone
    rw [hT'] at hnone
    obtain ⟨hnone, hb⟩ := hT.tableOf_none h₂ hnone
    exact ⟨hF.tableOf_none h hnone, hb⟩
  case lasts =>
    intro r hs
    obtain ⟨-, -, hl⟩ := lasts_share hs
    rw [← hF.stock h, ← hT.stock h₂] at hl
    obtain ⟨hfree, htable⟩ := stock_share (add_one_ne_unused hc₃) hmap hT'
    refine Stock.Lasts.erase hfree htable (hl.mono ?_)
    split_ifs with hmem
    · rw [hsrc.ownNeed hR (mapNr_lt a) hg₃ (mem_frees.mp hmem).2]
    · omega

end Mks.Mem
