import Mks.Interrupt.Entry

set_option autoImplicit false

/-! # Transparent interrupts (`kernel/interrupt.c`)

`intr_init` fills the table of handlers and the interrupt descriptor table in loops. An interrupt is
transparent if the handler it comes to is in the table, gets the arguments it expects, and the
interrupted code finds its registers again (`Transparent`). That is so for the vectors that have a
stub of their own, except for vector 17, whose stub does not expect the error code that the
processor pushes; the stub of the other vectors selects an entry after the end of the table
(`transparent_iff`).
-/

namespace Mks.Interrupt

open X86 StateTransition

/-! ## The table of handlers -/

def INTR_NUM : Nat := 255

inductive Handler
  | doIntrParallel | doIntrKercall | doIntrReserved | doIntrDebug2
  | doIntrClock | doIntrPage | doIntrKeyboard
  /-- `do_intr_0` to `do_intr_59` -/
  | doIntr (i : Nat)
deriving DecidableEq

/-- `for(i=lo; i<hi; i++) t[i] = f(i)` -/
def fill {α : Type} (lo hi : Nat) (f : Nat → α) (t : Nat → Option α) : Nat → Option α :=
  (List.range' lo (hi - lo)).foldl (fun t i => Function.update t i (some (f i))) t

/-- `t[i] = x` -/
def put {α : Type} (i : Nat) (x : α) (t : Nat → Option α) : Nat → Option α :=
  Function.update t i (some x)

/-- `intr_table` after `intr_init`. `none` is an entry that has not been written, or one that the
table does not have. The assignments of `do_intr_10` to `do_intr_59` are one line each in the
source. -/
def intrTable : Nat → Option Handler :=
  let t := fill 0 255 (fun _ => .doIntrReserved) fun _ => none
  let t := put 13 .doIntrDebug2 t
  let t := put 14 .doIntrPage t
  let t := put 32 .doIntrClock t
  let t := put 33 .doIntrKeyboard t
  let t := put 39 .doIntrParallel t
  let t := put 0x88 .doIntrKercall t
  let t := fill 10 13 .doIntr t
  let t := fill 15 32 .doIntr t
  let t := fill 34 39 .doIntr t
  fill 40 60 .doIntr t

theorem fill_apply {α : Type} (lo hi : Nat) (f : Nat → α) (t : Nat → Option α) (i : Nat) :
    fill lo hi f t i = if lo ≤ i ∧ i < hi then some (f i) else t i := by
  unfold fill
  generalize hn : hi - lo = n
  -- on the number of entries that are left
  induction n generalizing lo t with
  | zero =>
      rw [if_neg (by omega)]
      rfl
  | succ n ih =>
      rw [List.range'_succ, List.foldl_cons, ih (lo + 1) _ (by omega)]
      rcases eq_or_ne i lo with rfl | hne
      · rw [if_neg (by omega), if_pos (by omega), Function.update_self]
      · rw [Function.update_of_ne hne]
        congr 1
        apply propext
        omega

theorem put_apply {α : Type} (i : Nat) (x : α) (t : Nat → Option α) (j : Nat) :
    put i x t j = if j = i then some x else t j := Function.update_apply t i (some x) j

/-- Exactly the first `n` entries have been written. -/
def Filled {α : Type} (n : Nat) (t : Nat → Option α) : Prop := ∀ i, (t i).isSome ↔ i < n

section Filled

variable {α : Type} {n : Nat} {t : Nat → Option α}

theorem Filled.fill (h : Filled n t) {hi : Nat} (hn : hi ≤ n) (lo : Nat) (f : Nat → α) :
    Filled n (fill lo hi f t) := by
  intro i
  rw [fill_apply]
  split_ifs with hi
  · exact iff_of_true rfl (by omega)
  · exact h i

theorem Filled.put (h : Filled n t) {k : Nat} (hk : k < n) (x : α) : Filled n (put k x t) := by
  intro i
  rw [put_apply]
  split_ifs with hi
  · exact iff_of_true rfl (by omega)
  · exact h i

theorem filled_fill (n : Nat) (f : Nat → α) : Filled n (fill 0 n f fun _ => none) := by
  intro i
  rw [fill_apply]
  split_ifs with hi
  · exact iff_of_true rfl hi.2
  · exact iff_of_false (by simp) (by omega)

end Filled

/-- **The table of handlers.** The entries that are initialised are those that the table has. -/
theorem filled_intrTable : Filled INTR_NUM intrTable := by
  have h := filled_fill INTR_NUM fun _ => Handler.doIntrReserved
  have h := h.put (k := 13) (by decide) .doIntrDebug2
  have h := h.put (k := 14) (by decide) .doIntrPage
  have h := h.put (k := 32) (by decide) .doIntrClock
  have h := h.put (k := 33) (by decide) .doIntrKeyboard
  have h := h.put (k := 39) (by decide) .doIntrParallel
  have h := h.put (k := 0x88) (by decide) .doIntrKercall
  exact (((h.fill (by decide) 10 _).fill (by decide) 15 _).fill (by decide) 34 _).fill
    (by decide) 40 _

/-! ## The descriptor table -/

structure Gate where
  type : Nat
  dpl : Nat
  addr : Label
deriving DecidableEq

def setIntrGate (addr : Label) : Gate := ⟨14, 0, addr⟩
def setTrapGate (addr : Label) : Gate := ⟨15, 0, addr⟩
def setSystemGate (addr : Label) : Gate := ⟨15, 3, addr⟩

def intrEnter (i : Nat) : Label := .intr i
def hwintrEnter (i : Nat) : Label := .hwintr i

/-- The descriptor table after `intr_init`. -/
def idt : Nat → Option Gate :=
  let t := fill 0 3 (fun i => setTrapGate (intrEnter i)) fun _ => none
  let t := fill 3 6 (fun i => setSystemGate (intrEnter i)) t
  let t := fill 6 20 (fun i => setTrapGate (intrEnter i)) t
  let t := fill 20 32 (fun _ => setTrapGate .intrReserved) t
  let t := fill 32 48 (fun i => setTrapGate (hwintrEnter (i - 32))) t
  let t := fill 48 256 (fun _ => setTrapGate .intrReserved) t
  let t := put 14 (setIntrGate (intrEnter 14)) t
  let t := put 0x80 (setSystemGate .intrMsg) t
  put 0x88 (setSystemGate .intrKercall) t

/-- A vector that has a stub of its own. -/
def Own (v : Nat) : Prop := v < 20 ∨ (32 ≤ v ∧ v < 48) ∨ v = 0x88

instance (v : Nat) : Decidable (Own v) := by unfold Own; infer_instance

/-- The stub of each vector. -/
theorem idt_addr {v : Nat} (hv : v ≤ 255) :
    (idt v).map Gate.addr = some (if v = 0x88 then .intrKercall else if v = 0x80 then .intrMsg
      else if v < 20 then intrEnter v else if 32 ≤ v ∧ v < 48 then hwintrEnter (v - 32)
      else .intrReserved) := by
  -- the gate of the page fault is written twice
  rcases eq_or_ne v 14 with rfl | h14
  · rfl
  · simp only [idt, put_apply, fill_apply]
    split_ifs <;> first | rfl | omega

theorem idt_intr {v : Nat} (hv : v < 20) : (idt v).map Gate.addr = some (.intr v) := by
  rw [idt_addr (by omega), if_neg (by omega), if_neg (by omega), if_pos hv]
  rfl

theorem idt_hwintr {v : Nat} (h32 : 32 ≤ v) (hv : v < 48) :
    (idt v).map Gate.addr = some (.hwintr (v - 32)) := by
  rw [idt_addr (by omega), if_neg (by omega), if_neg (by omega), if_neg (by omega),
    if_pos ⟨h32, hv⟩]
  rfl

theorem idt_kercall : (idt 0x88).map Gate.addr = some .intrKercall := idt_addr (by decide)

theorem idt_reserved {v : Nat} (hv : v ≤ 255) (hm : v ≠ 0x80) (h : ¬ Own v) :
    (idt v).map Gate.addr = some .intrReserved := by
  simp only [Own, not_or] at h
  rw [idt_addr hv, if_neg h.2.2, if_neg hm, if_neg h.1, if_neg h.2.1]

/-! ## What the processor does -/

/-- The vectors with an error code. -/
def ErrorCode (v : Nat) : Prop := v = 8 ∨ (10 ≤ v ∧ v ≤ 14) ∨ v = 17

instance (v : Nat) : Decidable (ErrorCode v) := by unfold ErrorCode; infer_instance

/-- What an interrupt pushes: the interrupted code is at `eip`, and its stack is switched to `esp0`
unless it runs at level 0. -/
structure Frame where
  eip : Dword
  cs : Dword
  eflags : Dword
  ss : Dword
  error : Dword
  esp0 : Dword

/-- The stack of the handler, up to the saved `eip`. -/
def pushFrame (f : Frame) (m : Machine) : Machine :=
  let m := if f.cs &&& 3 = 0 then m else ({ m with esp := f.esp0 }.push f.ss).push m.esp
  ((m.push f.eflags).push f.cs).push f.eip

/-- The machine at the first instruction of the stub. -/
def deliver (v : Nat) (f : Frame) (m : Machine) : Machine :=
  if ErrorCode v then (pushFrame f m).push f.error else pushFrame f m

theorem pushFrame_reg (f : Frame) (m : Machine) : (pushFrame f m).reg = m.reg := by
  unfold pushFrame
  split_ifs <;> rfl

theorem pushFrame_seg (f : Frame) (m : Machine) : (pushFrame f m).seg = m.seg := by
  unfold pushFrame
  split_ifs <;> rfl

theorem deliver_reg (v : Nat) (f : Frame) (m : Machine) : (deliver v f m).reg = m.reg := by
  unfold deliver
  split_ifs <;> exact pushFrame_reg f m

theorem deliver_seg (v : Nat) (f : Frame) (m : Machine) : (deliver v f m).seg = m.seg := by
  unfold deliver
  split_ifs <;> exact pushFrame_seg f m

/-- The saved `eip` is above the error code. -/
theorem deliver_esp {v : Nat} (hv : ErrorCode v) (f : Frame) (m : Machine) :
    (deliver v f m).esp + 4 = (pushFrame f m).esp := by
  rw [deliver, if_pos hv]
  exact sub_add_cancel _ _

theorem pushFrame_holds (f : Frame) (m : Machine) :
    Holds (pushFrame f m).mem (pushFrame f m).esp [.word f.eip, .word f.cs] := by
  have h : ∀ m : Machine, Holds ((m.push f.cs).push f.eip).mem ((m.push f.cs).push f.eip).esp
      [.word f.eip, .word f.cs] := fun m =>
    holds_push (holds_push .nil (by simp [DEPTH]) rfl) (by simp [DEPTH]) rfl
  exact h _

theorem deliver_holds {v : Nat} (hv : ErrorCode v) (f : Frame) (m : Machine) :
    Holds (deliver v f m).mem (deliver v f m).esp [.word f.error, .word f.eip, .word f.cs] := by
  rw [deliver, if_pos hv]
  exact holds_push (pushFrame_holds f m) (by simp [DEPTH]) rfl

/-! ## Transparency -/

/-- **The interrupt `v` is transparent.** Whatever the machine, the frame and the halves of the
dwords that hold selectors: control comes to an initialised entry of the table, with the address of
the saved `eip`, the error code and the interrupted privilege level as arguments; and however the
handler returns, control comes to `iret` with the registers that were interrupted and the stack
pointer at the saved `eip`. -/
def Transparent (v : Nat) : Prop :=
  ∃ g, idt v = some g ∧ ∀ (pad : Dword → BitVec 16) (m : Machine) (f : Frame),
    ∃ r rest m₁,
      Reaches (step code pad) (code g.addr, deliver v f m) (.callTable r :: rest, m₁) ∧
      (intrTable (m₁.reg r).toNat).isSome ∧
      m₁.top 0 = (pushFrame f m).esp ∧
      m₁.top 1 = (if ErrorCode v then f.error else 0) ∧
      m₁.top 2 = f.cs &&& 3 ∧
      ∀ m₂, Returns m₁ m₂ →
        ∃ rest' m₃, Reaches (step code pad) (rest, m₂) (.iret :: rest', m₃) ∧
          m₃.reg = m.reg ∧ m₃.seg = m.seg ∧ m₃.esp = (pushFrame f m).esp

/-! ## The stubs -/

theorem code_intr {v : Nat} (hv : v < 20) :
    code (.intr v) = stub (BitVec.ofNat 32 v)
      (if ErrorCode v ∧ v ≠ 17 then .withErrorCode else .noErrorCode) := by
  interval_cases v <;> rfl

theorem code_hwintr {i : Nat} (hi : i < 16) :
    code (.hwintr i) = stub (BitVec.ofNat 32 (32 + i)) .noErrorCode := by
  interval_cases i <;> rfl

theorem idt_code {v : Nat} {l : Label} (h : (idt v).map Gate.addr = some l) :
    ∃ g, idt v = some g ∧ code g.addr = code l := by
  obtain ⟨g, hg, rfl⟩ := Option.map_eq_some_iff.mp h
  exact ⟨g, hg, rfl⟩

/-- Number `v` selects entry `v`. -/
theorem intr_table_number {v : Nat} (hv : v < INTR_NUM) :
    (intrTable (BitVec.ofNat 32 v).toNat).isSome := by
  rw [filled_intrTable]
  simp only [INTR_NUM, BitVec.toNat_ofNat] at hv ⊢
  omega

/-- It is enough that the call has the right arguments, and saves what was interrupted. -/
theorem transparent_of_call {v : Nat} {l : Label} (hl : (idt v).map Gate.addr = some l)
    (hv : v < INTR_NUM) (h : ∀ (pad : Dword → BitVec 16) (m : Machine) (f : Frame), ∃ r m₁,
      Reaches (step code pad) (code l, deliver v f m) (.callTable r :: restore, m₁) ∧
      AtCall m.reg m.seg (BitVec.ofNat 32 v) (pushFrame f m).esp
        (if ErrorCode v then f.error else 0) (f.cs &&& 3) r m₁) : Transparent v := by
  obtain ⟨g, hg, hgl⟩ := idt_code hl
  refine ⟨g, hg, fun pad m f => ?_⟩
  obtain ⟨r, m₁, hr, hcall⟩ := h pad m f
  rw [hgl]
  refine ⟨r, restore, m₁, hr, ?_, hcall.eip, hcall.error, hcall.level, fun m₂ hret => ?_⟩
  · rw [hcall.number]
    exact intr_table_number hv
  · obtain ⟨m₃, hr₃, hregs⟩ := restore_returns pad hcall hret
    exact ⟨[], m₃, hr₃, hregs⟩

/-- A stub without an error code is right if there is none. -/
theorem transparent_no_error_code {v : Nat} {l : Label} (hl : (idt v).map Gate.addr = some l)
    (hc : code l = stub (BitVec.ofNat 32 v) .noErrorCode) (he : ¬ ErrorCode v)
    (hv : v < INTR_NUM) : Transparent v := by
  refine transparent_of_call hl hv fun pad m f => ?_
  obtain ⟨m₁, hr, hcall⟩ := no_error_code_call pad (BitVec.ofNat 32 v) (pushFrame f m)
  have hcs : (pushFrame f m).mem ((pushFrame f m).esp + 4) = f.cs := pushFrame_holds f m 1 _ rfl
  rw [pushFrame_reg, pushFrame_seg, hcs] at hcall
  rw [hc, deliver, if_neg he, if_neg he]
  exact ⟨_, m₁, hr, hcall⟩

/-- A stub with an error code is right if there is one. -/
theorem transparent_with_error_code {v : Nat} {l : Label} (hl : (idt v).map Gate.addr = some l)
    (hc : code l = stub (BitVec.ofNat 32 v) .withErrorCode) (he : ErrorCode v)
    (hv : v < INTR_NUM) : Transparent v := by
  refine transparent_of_call hl hv fun pad m f => ?_
  obtain ⟨m₁, hr, hcall⟩ := with_error_code_call pad (BitVec.ofNat 32 v) (deliver v f m)
  have hh := deliver_holds he f m
  have herr : (deliver v f m).mem (deliver v f m).esp = f.error := hh.head
  have hcs : (deliver v f m).mem ((deliver v f m).esp + 8) = f.cs := hh 2 _ rfl
  rw [deliver_reg, deliver_seg, deliver_esp he, herr, hcs] at hcall
  rw [hc, if_pos he]
  exact ⟨_, m₁, hr, hcall⟩

/-- Where a vector whose stub pushes `n` and expects no error code comes to a call. -/
theorem Transparent.call {v : Nat} {l : Label} {n : Dword} (h : Transparent v)
    (hl : (idt v).map Gate.addr = some l) (hc : code l = stub n .noErrorCode) (m : Machine)
    (f : Frame) :
    (intrTable n.toNat).isSome ∧ (deliver v f m).esp = (pushFrame f m).esp := by
  obtain ⟨g, hg, hr⟩ := h
  obtain ⟨g', hg', hgl⟩ := idt_code hl
  obtain rfl := Option.some.inj (hg.symm.trans hg')
  obtain ⟨r, rest, m₁, hr₁, htab, heip, -⟩ := hr (fun _ => 0) m f
  rw [hgl, hc] at hr₁
  obtain ⟨m₂, hr₂, hcall⟩ := no_error_code_call (fun _ => 0) n (deliver v f m)
  -- the code is deterministic: the call that is reached is this one
  have heq := reaches_unique hr₁ hr₂ rfl rfl
  simp only [Prod.mk.injEq, List.cons.injEq, Instr.callTable.injEq] at heq
  obtain ⟨⟨rfl, rfl⟩, rfl⟩ := heq
  rw [hcall.number] at htab
  exact ⟨htab, hcall.eip.symm.trans heip⟩

/-- The stub of vector 17 does not expect the error code. -/
theorem not_transparent_17 : ¬ Transparent 17 := by
  intro h
  let m : Machine := ⟨fun _ => 0, 0, fun _ => 0, fun _ => 0⟩
  have := (h.call (idt_intr (by decide)) (code_intr (by decide)) m ⟨0, 0, 0, 0, 0, 0⟩).2
  revert this
  decide

/-- The table has no entry for the number of the reserved stub. -/
theorem not_transparent_reserved {v : Nat} (hv : v ≤ 255) (hm : v ≠ 0x80) (h : ¬ Own v) :
    ¬ Transparent v := by
  intro ht
  let m : Machine := ⟨fun _ => 0, 0, fun _ => 0, fun _ => 0⟩
  have := (ht.call (idt_reserved hv hm h) rfl m ⟨0, 0, 0, 0, 0, 0⟩).1
  rw [filled_intrTable] at this
  exact absurd this (by decide)

/-- **Interrupts are transparent.** Except for the message gate, the interrupts that are transparent
are those whose vector has a stub of its own and is not 17. -/
theorem transparent_iff (v : Nat) (hv : v ≤ 255) (hm : v ≠ 0x80) :
    Transparent v ↔ (v < 20 ∧ v ≠ 17) ∨ (32 ≤ v ∧ v < 48) ∨ v = 0x88 := by
  constructor
  · intro h
    have hown : Own v := not_not.mp fun hn => not_transparent_reserved hv hm hn h
    have h17 : v ≠ 17 := by
      rintro rfl
      exact not_transparent_17 h
    simp only [Own] at hown
    omega
  · rintro (⟨h20, h17⟩ | ⟨h32, h48⟩ | rfl)
    · have hc := code_intr h20
      by_cases he : ErrorCode v
      · rw [if_pos ⟨he, h17⟩] at hc
        exact transparent_with_error_code (idt_intr h20) hc he (by simp [INTR_NUM]; omega)
      · rw [if_neg fun h => he h.1] at hc
        exact transparent_no_error_code (idt_intr h20) hc he (by simp [INTR_NUM]; omega)
    · have hc := code_hwintr (i := v - 32) (by omega)
      rw [Nat.add_sub_cancel' h32] at hc
      exact transparent_no_error_code (idt_hwintr h32 h48) hc (by simp [ErrorCode]; omega)
        (by simp [INTR_NUM]; omega)
    · exact transparent_no_error_code idt_kercall rfl (by decide) (by decide)

/-- A page fault is transparent, an alignment check is not. -/
theorem transparent_iff_faults : Transparent 14 ∧ ¬ Transparent 17 :=
  ⟨(transparent_iff 14 (by decide) (by decide)).mpr (by decide),
    fun h => absurd ((transparent_iff 17 (by decide) (by decide)).mp h) (by decide)⟩

/-- Neither an alignment check nor the first vector after those of the hardware is transparent. -/
theorem alignment_check_reserved : ¬ Transparent 17 ∧ ¬ Transparent 48 :=
  ⟨not_transparent_17, not_transparent_reserved (by decide) (by decide) (by decide)⟩

end Mks.Interrupt
