import Mks.Basic
import Mks.Lib.Descriptor

set_option autoImplicit false

/-! # The segments of a process

`proc_init` (`kernel/proc.c`) gives the process in slot `i` a code and a data segment with the base
`i * 64MB` and the limit `64MB / 4KB`, written by the macros of `include/asm/system.h`. The macros
are right (`decode_setLdtSegDesc`). The limit is one too large: it is the number of the segment's
pages, and a descriptor holds the last page. A segment so has the first page of the next slot too
(`procInit_mem`).
-/

namespace Mks.Process

open Descriptor

/-- `desc_struct` (`include/kernel/head.h`). -/
structure DescStruct where
  a : Word
  b : Word

def DescStruct.decode (d : DescStruct) : Segment := Descriptor.decode d.a d.b

/-- `_set_ldt_seg_desc` -/
def setLdtSegDesc (type base limit : Word) : DescStruct where
  a := ((base &&& 0x0000ffff) <<< 16) ||| (limit &&& 0x0ffff)
  b := (base &&& 0xff000000) ||| ((base &&& 0x00ff0000) >>> 16) ||| (limit &&& 0xf0000) |||
    0x00C0F000 ||| (type <<< 8)

def setLdtCsDesc (base limit : Word) : DescStruct := setLdtSegDesc 0x0A base limit

def setLdtDsDesc (base limit : Word) : DescStruct := setLdtSegDesc 0x02 base limit

/-! ## The encoding

A field of the descriptor is read bit by bit: each bit is one of the type, the base or the limit, or
one of the constant `0x00C0F000`. -/

section Encoding

variable (type : BitVec 4) (base : Word) (limit : BitVec 20)

/-- The two words for a type and a limit of the width of their fields. -/
private abbrev desc : DescStruct :=
  setLdtSegDesc (type.setWidth 32) base (limit.setWidth 32)

theorem decode_base : (desc type base limit).decode.base = base := by
  apply BitVec.eq_of_getLsbD_eq
  intro i hi
  rw [DescStruct.decode, getLsbD_base _ _ hi]
  interval_cases i <;> simp [setLdtSegDesc]

theorem decode_limit : (desc type base limit).decode.limit = limit := by
  apply BitVec.eq_of_getLsbD_eq
  intro i hi
  rw [DescStruct.decode, getLsbD_limit _ _ hi]
  interval_cases i <;> simp [setLdtSegDesc]

theorem decode_type : (desc type base limit).decode.type = type := by
  apply BitVec.eq_of_getLsbD_eq
  intro i hi
  interval_cases i <;> simp [DescStruct.decode, Descriptor.decode, setLdtSegDesc]

theorem decode_dpl : (desc type base limit).decode.dpl = 3 := by
  apply BitVec.eq_of_getLsbD_eq
  intro i hi
  interval_cases i <;> simp [DescStruct.decode, Descriptor.decode, setLdtSegDesc]

/-- Decoding the two words gives the type, base and limit back. -/
theorem decode_setLdtSegDesc :
    (setLdtSegDesc (type.setWidth 32) base (limit.setWidth 32)).decode =
      { base := base, limit := limit, type := type, s := true, dpl := 3, present := true,
        db := true, granularity := true } := by
  have hb := decode_base type base limit
  have hl := decode_limit type base limit
  have ht := decode_type type base limit
  have hd := decode_dpl type base limit
  have hs : (desc type base limit).decode.s = true ∧
      (desc type base limit).decode.present = true ∧
      (desc type base limit).decode.db = true ∧
      (desc type base limit).decode.granularity = true := by
    simp [DescStruct.decode, Descriptor.decode, setLdtSegDesc]
  cases h : (desc type base limit).decode with
  | mk base' limit' type' s' dpl' present' db' granularity' =>
    simp only [h] at hb hl ht hd hs
    obtain ⟨rfl, rfl, rfl, rfl⟩ := hs
    rw [hb, hl, ht, hd]

end Encoding

/-! ## `proc_init` -/

/-- The tables `init_procs[i].ldt`. -/
abbrev Ldts := Nat → Fin 3 → DescStruct

/-- The base of the segments of slot `i`. -/
def slotBase (i : Nat) : Word := BitVec.ofNat 32 (0x4000000 * i)

/-- What one turn of the loop over the slots does to the tables. -/
def initSlot (ldt : Ldts) (i : Nat) : Ldts :=
  -- the copy of the whole of `*proc[0]` to `*proc[i]`
  let ldt := Function.update ldt i (ldt 0)
  let ldt := Function.update ldt i
    (Function.update (ldt i) 1 (setLdtCsDesc (slotBase i) 16384))
  Function.update ldt i (Function.update (ldt i) 2 (setLdtDsDesc (slotBase i) 16384))

def procInit (ldt : Ldts) : Ldts := (List.range NR_INIT_PROCS).foldl initSlot ldt

/-- The segment that entry `e` of the table of slot `i` describes: the code segment (`e = 1`) or
the data segment (`e = 2`). -/
def segment (ldt : Ldts) (i : Nat) (e : Fin 3) : Segment := (ldt i e).decode

theorem initSlot_ne (ldt : Ldts) {i j : Nat} (h : j ≠ i) : initSlot ldt i j = ldt j := by
  simp [initSlot, h]

theorem initSlot_cs (ldt : Ldts) (i : Nat) :
    initSlot ldt i i 1 = setLdtCsDesc (slotBase i) 16384 := by
  simp [initSlot]

theorem initSlot_ds (ldt : Ldts) (i : Nat) :
    initSlot ldt i i 2 = setLdtDsDesc (slotBase i) 16384 := by
  simp [initSlot]

/-- The turns after the one for slot `i` do not touch its table. -/
theorem initSlots (ldt : Ldts) (n : Nat) :
    ∀ i < n, (List.range n).foldl initSlot ldt i 1 = setLdtCsDesc (slotBase i) 16384 ∧
      (List.range n).foldl initSlot ldt i 2 = setLdtDsDesc (slotBase i) 16384 := by
  induction n with
  | zero => intro i hi; omega
  | succ n ih =>
    intro i hi
    rw [List.range_succ, List.foldl_append, List.foldl_cons, List.foldl_nil]
    by_cases h : i = n
    · subst h
      exact ⟨initSlot_cs _ _, initSlot_ds _ _⟩
    · rw [initSlot_ne _ h]
      exact ih i (by omega)

/-- The segments `proc_init` leaves. -/
theorem procInit_segment (ldt : Ldts) {i : Nat} (hi : i < NR_INIT_PROCS) {e : Fin 3}
    (he : e = 1 ∨ e = 2) :
    segment (procInit ldt) i e =
      { base := slotBase i, limit := 16384, type := if e = 1 then 0x0A else 0x02, s := true,
        dpl := 3, present := true, db := true, granularity := true } := by
  have h := initSlots ldt NR_INIT_PROCS i hi
  rw [segment, procInit]
  rcases he with rfl | rfl
  · rw [h.1]
    exact decode_setLdtSegDesc 0x0A (slotBase i) 16384
  · rw [h.2]
    exact decode_setLdtSegDesc 0x02 (slotBase i) 16384

/-! ## The linear range of a slot -/

/-- `d` has exactly the addresses `[i * 64MB, (i + 1) * 64MB)`. -/
def OwnRange (d : Segment) (i : Nat) : Prop :=
  ∀ a : Word, a ∈ d.linear ↔ 0x4000000 * i ≤ a.toNat ∧ a.toNat < 0x4000000 * (i + 1)

theorem slotBase_toNat {i : Nat} (hi : i < NR_INIT_PROCS) :
    (slotBase i).toNat = 0x4000000 * i := by
  have : i < 3 := hi
  rw [slotBase, BitVec.toNat_ofNat, Nat.mod_eq_of_lt (by omega)]

/-- A segment of slot `i` is the slot's range if and only if its limit is one less than the number
of the pages of 64MB. -/
theorem ownRange_iff {d : Segment} {i : Nat} (hi : i < NR_INIT_PROCS) (hb : d.base = slotBase i)
    (hg : d.granularity = true) : OwnRange d i ↔ d.limit = 16383 := by
  have hi' : i < 3 := hi
  have hbase : d.base.toNat = 0x4000000 * i := by rw [hb, slotBase_toNat hi]
  have h := Segment.linear_eq_iff (n := 16384) hg (by omega) (by omega)
  rw [hbase, show 0x4000000 * i + 4096 * 16384 = 0x4000000 * (i + 1) by ring] at h
  rw [OwnRange, h]
  constructor
  · intro h
    exact BitVec.eq_of_toNat_eq (by simp; omega)
  · intro h
    rw [h]
    rfl

section Booted

variable (ldt : Ldts) {i j : Nat} (hi : i < NR_INIT_PROCS) (hj : j < NR_INIT_PROCS)
  {e e' : Fin 3} (he : e = 1 ∨ e = 2) (he' : e' = 1 ∨ e' = 2)

include hi he

/-- The first and the last address of a segment of slot `i`: it ends in the first page above the
slot's range. -/
theorem procInit_bounds :
    (segment (procInit ldt) i e).base.toNat = 0x4000000 * i ∧
      (segment (procInit ldt) i e).base.toNat + (segment (procInit ldt) i e).lastOffset =
        0x4000000 * (i + 1) + 4095 := by
  rw [procInit_segment ldt hi he]
  have hb := slotBase_toNat hi
  refine ⟨hb, ?_⟩
  simp [Segment.lastOffset, hb]
  omega

theorem procInit_mem (a : Word) :
    a ∈ (segment (procInit ldt) i e).linear ↔
      0x4000000 * i ≤ a.toNat ∧ a.toNat < 0x4000000 * (i + 1) + 4096 := by
  have hi' : i < 3 := hi
  have hb := procInit_bounds ldt hi he
  rw [Segment.mem_linear_iff (by omega)]
  omega

theorem procInit_not_ownRange : ¬ OwnRange (segment (procInit ldt) i e) i := by
  rw [procInit_segment ldt hi he, ownRange_iff hi rfl rfl]
  change ¬ (16384 : BitVec 20) = 16383
  decide

include hj he'

/-- The segments of two slots share an address if and only if the slots are neighbours (or one
slot). -/
theorem procInit_disjoint :
    Disjoint (segment (procInit ldt) i e).linear (segment (procInit ldt) j e').linear ↔
      i + 1 < j ∨ j + 1 < i := by
  have hi' : i < 3 := hi
  have hj' : j < 3 := hj
  have hb := procInit_bounds ldt hi he
  have hb' := procInit_bounds ldt hj he'
  rw [Segment.disjoint_iff (by omega) (by omega)]
  omega

end Booted

/-- The macros encode every base and limit. With the limit that `proc_init` passes no segment is the
64MB of its slot, as only the limit `16383` gives these; the segments of two slots are disjoint if
and only if the slots are not neighbours. -/
theorem segments_of_procInit (base : Word) (limit : BitVec 20) (ldt : Ldts) {i j : Nat}
    (hi : i < NR_INIT_PROCS) (hj : j < NR_INIT_PROCS) (hij : i ≠ j) {e e' : Fin 3}
    (he : e = 1 ∨ e = 2) (he' : e' = 1 ∨ e' = 2) :
    (setLdtCsDesc base (limit.setWidth 32)).decode =
        { base := base, limit := limit, type := 0x0A, s := true, dpl := 3, present := true,
          db := true, granularity := true } ∧
      (setLdtDsDesc base (limit.setWidth 32)).decode =
        { base := base, limit := limit, type := 0x02, s := true, dpl := 3, present := true,
          db := true, granularity := true } ∧
      (OwnRange (setLdtCsDesc (slotBase i) (limit.setWidth 32)).decode i ↔ limit = 16383) ∧
      (OwnRange (setLdtDsDesc (slotBase i) (limit.setWidth 32)).decode i ↔ limit = 16383) ∧
      ¬ OwnRange (segment (procInit ldt) i e) i ∧
      (Disjoint (segment (procInit ldt) i e).linear (segment (procInit ldt) j e').linear ↔
        ¬ (j = i + 1 ∨ i = j + 1)) := by
  have cs (base : Word) := decode_setLdtSegDesc 0x0A base limit
  have ds (base : Word) := decode_setLdtSegDesc 0x02 base limit
  refine ⟨cs base, ds base, ?_, ?_, procInit_not_ownRange ldt hi he, ?_⟩
  · exact (congrArg (OwnRange · i) (cs (slotBase i))).to_iff.trans (ownRange_iff hi rfl rfl)
  · exact (congrArg (OwnRange · i) (ds (slotBase i))).to_iff.trans (ownRange_iff hi rfl rfl)
  · rw [procInit_disjoint ldt hi hj he he']
    omega

theorem segments_of_procInit_two :
    Disjoint (segment (procInit fun _ _ => ⟨0, 0⟩) 0 1).linear
      (segment (procInit fun _ _ => ⟨0, 0⟩) 2 2).linear :=
  (segments_of_procInit 0 0 (fun _ _ => ⟨0, 0⟩) (i := 0) (j := 2) (by decide) (by decide)
    (by decide) (.inl rfl) (.inr rfl)).2.2.2.2.2.mpr (by decide)

/-- The address 64MB is in the segments of the slots 0 and 1. -/
theorem segments_of_procInit_overlap :
    ¬ ∀ (ldt : Ldts), ∀ i < NR_INIT_PROCS, ∀ e : Fin 3, e = 1 ∨ e = 2 →
      OwnRange (segment (procInit ldt) i e) i ∧
        ∀ j < NR_INIT_PROCS, ∀ e' : Fin 3, e' = 1 ∨ e' = 2 → i ≠ j →
          Disjoint (segment (procInit ldt) i e).linear
            (segment (procInit ldt) j e').linear := by
  intro h
  have h01 := (h (fun _ _ => ⟨0, 0⟩) 0 (by decide) 1 (.inl rfl)).2 1 (by decide) 1 (.inl rfl)
    (by decide)
  have h0 := (procInit_mem (fun _ _ => ⟨0, 0⟩) (i := 0) (by decide) (.inl rfl) 0x4000000).mpr
    (by decide)
  have h1 := (procInit_mem (fun _ _ => ⟨0, 0⟩) (i := 1) (by decide) (.inl rfl) 0x4000000).mpr
    (by decide)
  exact Set.disjoint_left.mp h01 h0 h1

end Mks.Process
