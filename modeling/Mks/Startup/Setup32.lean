import Mks.Lib.Loops
import Mks.Interrupt.Descriptors
import Mks.Memory.Boot
import Mks.Startup.Image

set_option autoImplicit false

/-! # The tables of `boot/setup32.asm`

`load_idt` fills the descriptor table with gates to `ignore_int`, and `setup_paging` makes the page
directory and eight page tables and turns paging on. The code of `setup_paging` does to the memory
what `Mem.setupPaging` says (`setup_paging_run`); the rest of the page directory is zero because the
boot sector has read it from the image behind the end of `setup32` (`setup32_tables`).
-/

namespace Mks.Setup32

open StateTransition Loops
open X86 (Dword)
open Interrupt (IDT_ADDR gateAddr gateAddr_toNat gateAddr_high_toNat setGate decodeGate
  decode_setGate)

/-! ## The code -/

def page0 : Dword := 0x8000

inductive Label
  | loadIdt
  | repeatLabel
  | setupPaging
  | pageDir
  | inPage
  | loop
  | done
deriving DecidableEq

section
variable (ignoreInt : Dword)

def repeatCode : List (Instr Label) :=
  [.store .edi 0 .eax, .store .edi 4 .edx, .addImm .edi 8, .dec .ecx, .jne .repeatLabel,
    .lidt (256 * 8 - 1, IDT_ADDR), .ret]

def pageDirCode : List (Instr Label) :=
  [.cmpImm .ecx 0, .je .inPage, .store .eax 0 .ebx, .addImm .ebx 0x1000, .addImm .eax 4,
    .dec .ecx, .jmp .pageDir]

def loopCode : List (Instr Label) :=
  [.cmpImm .ecx 0, .je .done, .store .eax 0 .ebx, .addImm .eax 4, .addImm .ebx 0x1000,
    .dec .ecx, .jmp .loop]

/-- The code at each label, with what it falls through into. `ignore_int` is the address of the
handler. -/
def code : Label → List (Instr Label)
  | .loadIdt =>
    [.movImm .edx ignoreInt, .movImm .eax 0x00080000, .movLow .eax .edx, .movLowImm .edx 0x8e00,
      .movImm .edi IDT_ADDR, .movImm .ecx 256] ++ repeatCode
  | .repeatLabel => repeatCode
  | .setupPaging =>
    [.movImm .eax PAGE_DIR_ADDR, .movImm .ebx (page0 + 7), .movImm .ecx 8] ++ pageDirCode
  | .pageDir => pageDirCode
  | .inPage => [.movImm .eax page0, .movImm .ebx 7, .movImm .ecx 8192] ++ loopCode
  | .loop => loopCode
  | .done =>
    [.movImm .eax PAGE_DIR_ADDR, .movCr3 .eax, .readCr0 .eax, .orImm .eax 0x80000000, .movCr0 .eax,
      .ret]

/-! ## `load_idt` -/

/-- One turn of the loop, up to the jump. -/
def turn (m : Loops.Machine) : Loops.Machine :=
  let m := { m with
    mem := Function.update (Function.update m.mem (m.reg .edi + 0) (m.reg .eax)) (m.reg .edi + 4)
      (m.reg .edx) }
  let m := m.setResult .edi (m.reg .edi + 8)
  m.setResult .ecx (m.reg .ecx - 1)

theorem repeat_reaches (m : Loops.Machine) :
    Reaches (step (code ignoreInt)) (code ignoreInt .repeatLabel, m)
      (if m.reg .ecx - 1 = 0 then [.lidt (256 * 8 - 1, IDT_ADDR), .ret]
        else code ignoreInt .repeatLabel, turn m) := by
  refine .head rfl (.head rfl (.head rfl (.head rfl (.single ?_))))
  have hz : (turn m).zf = decide (m.reg .ecx - 1 = 0) := rfl
  show some (if (turn m).zf = true then _ else _, turn m) = _
  rw [hz]
  simp only [decide_eq_true_eq]

/-- The invariant of the loop: `k` gates are stored. -/
structure Gates (m₀ : Loops.Machine) (k : Nat) (m : Loops.Machine) : Prop where
  edi : m.reg .edi = IDT_ADDR + BitVec.ofNat 32 (8 * k)
  eax : m.reg .eax = m₀.reg .eax
  edx : m.reg .edx = m₀.reg .edx
  ecx : m.reg .ecx = BitVec.ofNat 32 (256 - k)
  mem : m.mem = fill m₀.mem IDT_ADDR
    (fun i => if i % 2 = 0 then m₀.reg .eax else m₀.reg .edx) (2 * k)
  cr0 : m.cr0 = m₀.cr0

theorem Gates.turn {m₀ m : Loops.Machine} {k : Nat} (h : Gates m₀ k m) (hk : k < 256) :
    Gates m₀ (k + 1) (turn m) where
  edi := by
    show m.reg .edi + 8 = _
    rw [h.edi, add_assoc, Nat.mul_succ, BitVec.ofNat_add]
    rfl
  eax := h.eax
  edx := h.edx
  ecx := by
    show m.reg .ecx - 1 = _
    rw [h.ecx, counter_dec hk]
  mem := by
    show Function.update (Function.update m.mem _ _) _ _ = _
    have hlow : IDT_ADDR + BitVec.ofNat 32 (8 * k) + 0 =
        IDT_ADDR + BitVec.ofNat 32 (4 * (2 * k)) := by
      rw [add_zero, ← Nat.mul_assoc]
    have hhigh : IDT_ADDR + BitVec.ofNat 32 (8 * k) + 4 =
        IDT_ADDR + BitVec.ofNat 32 (4 * (2 * k + 1)) := by
      rw [add_assoc, Nat.mul_succ 4, ← Nat.mul_assoc, BitVec.ofNat_add]
      rfl
    rw [h.mem, h.edi, h.eax, h.edx, hlow, hhigh, show 2 * (k + 1) = 2 * k + 1 + 1 from rfl, fill,
      fill, if_pos (Nat.mul_mod_right 2 k), if_neg (by omega)]
  cr0 := h.cr0

theorem load_idt_reaches (m : Loops.Machine) : ∃ m',
    Reaches (step (code ignoreInt)) (code ignoreInt .loadIdt, m) ([.ret], m') ∧
      m'.idtr = (256 * 8 - 1, IDT_ADDR) ∧ m'.cr0 = m.cr0 ∧
      m'.mem = fill m.mem IDT_ADDR (fun i => if i % 2 = 0 then (setGate 14 0 ignoreInt).1
        else (setGate 14 0 ignoreInt).2) 512 := by
  obtain ⟨m₁, h₁, hm₁⟩ : ∃ m₁, Reaches (step (code ignoreInt)) (code ignoreInt .loadIdt, m)
      (code ignoreInt .repeatLabel, m₁) ∧ m₁ = _ :=
    ⟨_, .head rfl (.head rfl (.head rfl (.head rfl (.head rfl (.head rfl .refl))))), rfl⟩
  have hstart : Gates m₁ 0 m₁ := ⟨by subst hm₁; rfl, rfl, rfl, by subst hm₁; rfl, rfl, rfl⟩
  have hturn : ∀ k < 255, ∀ m, Gates m₁ k m → ∃ m', Reaches (step (code ignoreInt))
      (code ignoreInt .repeatLabel, m) (code ignoreInt .repeatLabel, m') ∧ Gates m₁ (k + 1) m' := by
    intro k hk m h
    have hstep := repeat_reaches ignoreInt m
    have hne : m.reg .ecx - 1 ≠ 0 := by
      rw [h.ecx, counter_dec (by omega)]
      exact counter_ne_zero (by omega) (by omega)
    rw [if_neg hne] at hstep
    exact ⟨turn m, hstep, h.turn (by omega)⟩
  obtain ⟨m₂, h₂, hG⟩ := reaches_loop hturn hstart
  have hlast := repeat_reaches ignoreInt m₂
  have hzero : m₂.reg .ecx - 1 = 0 := (hG.turn (by decide)).ecx
  rw [if_pos hzero] at hlast
  have hG := hG.turn (by decide)
  refine ⟨_, h₁.trans (h₂.trans (hlast.trans (.head rfl .refl))), rfl, hG.cr0.trans ?_,
    hG.mem.trans ?_⟩
  · subst hm₁; rfl
  · subst hm₁; rfl

/-! ## `setup_paging` -/

/-- The frames of physical memory. -/
def memory (mem : Dword → Dword) (mm : Nat → BitVec 8) : Mem where
  memMap := mm
  phys f i := if f < 2 ^ 20 ∧ i < 1024 then mem (BitVec.ofNat 32 (4096 * f + 4 * i)) else 0

theorem page_dir_stores (m : Loops.Machine) (rest : List (Instr Label)) : ∃ m',
    Reaches (step (code ignoreInt)) ([.store .eax 0 .ebx, .addImm .ebx 0x1000, .addImm .eax 4] ++
      rest, m) (rest, m') ∧ Stores 0x1000 m m' :=
  ⟨_, .head rfl (.head rfl (.head rfl .refl)), rfl, rfl, rfl,
    congrArg (Function.update m.mem · _) (add_zero (m.reg .eax)), rfl, rfl⟩

theorem loop_stores (m : Loops.Machine) (rest : List (Instr Label)) : ∃ m',
    Reaches (step (code ignoreInt)) ([.store .eax 0 .ebx, .addImm .eax 4, .addImm .ebx 0x1000] ++
      rest, m) (rest, m') ∧ Stores 0x1000 m m' :=
  ⟨_, .head rfl (.head rfl (.head rfl .refl)), rfl, rfl, rfl,
    congrArg (Function.update m.mem · _) (add_zero (m.reg .eax)), rfl, rfl⟩

/-- The memory with the entries of the page directory and of the page tables. -/
def tables (mem : Dword → Dword) : Dword → Dword :=
  fill (fill mem PAGE_DIR_ADDR (fun i => page0 + 7 + BitVec.ofNat 32 i * 0x1000) 8) page0
    (fun i => 7 + BitVec.ofNat 32 i * 0x1000) 8192

theorem setup_paging_reaches (m : Loops.Machine) : ∃ m',
    Reaches (step (code ignoreInt)) (code ignoreInt .setupPaging, m) ([.ret], m') ∧
      m'.cr3 = PAGE_DIR_ADDR ∧ m'.cr0 = m.cr0 ||| 0x80000000 ∧ m'.idtr = m.idtr ∧
      m'.mem = tables m.mem := by
  let m₁ := ((m.setReg .eax PAGE_DIR_ADDR).setReg .ebx (page0 + 7)).setReg .ecx 8
  have h₁ : Reaches (step (code ignoreInt)) (code ignoreInt .setupPaging, m)
      (code ignoreInt .pageDir, m₁) := .head rfl (.head rfl (.head rfl .refl))
  obtain ⟨m₂, h₂, hcr0₂, hidtr₂, hmem₂⟩ := fill_loop .pageDir .inPage rfl
    (page_dir_stores ignoreInt) (n := 8) (by decide) m₁ rfl
  let m₃ := ((m₂.setReg .eax page0).setReg .ebx 7).setReg .ecx 8192
  have h₃ : Reaches (step (code ignoreInt)) (code ignoreInt .inPage, m₂)
      (code ignoreInt .loop, m₃) := .head rfl (.head rfl (.head rfl .refl))
  obtain ⟨m₄, h₄, hcr0₄, hidtr₄, hmem₄⟩ := fill_loop .loop .done rfl
    (loop_stores ignoreInt) (n := 8192) (by decide) m₃ rfl
  refine ⟨_, h₁.trans (h₂.trans (h₃.trans (h₄.trans (.head rfl (.head rfl (.head rfl (.head rfl
    (.head rfl .refl)))))))), rfl, ?_, hidtr₄.trans hidtr₂, ?_⟩
  · exact congrArg (· ||| 0x80000000) (hcr0₄.trans hcr0₂)
  · rw [tables]
    exact hmem₄.trans (congrArg (fill · page0 _ 8192) hmem₂)

/-! ## The memory -/

theorem address_toNat {f i : Nat} (hf : f < 2 ^ 20) (hi : i < 1024) :
    (BitVec.ofNat 32 (4096 * f + 4 * i)).toNat = 4096 * f + 4 * i := by
  rw [BitVec.toNat_ofNat]
  omega

theorem row_toNat {a : Dword} {n i : Nat} (h : a.toNat + 4 * n < 2 ^ 32) (hi : i < n) :
    (a + BitVec.ofNat 32 (4 * i)).toNat = a.toNat + 4 * i := by
  rw [BitVec.toNat_add, BitVec.toNat_ofNat]
  omega

/-- The loops write within one row of dwords. -/
theorem fill_other {mem : Dword → Dword} {a x : Dword} {v : Nat → Dword} {n : Nat}
    (hn : a.toNat + 4 * n < 2 ^ 32) (hx : x.toNat < a.toNat ∨ a.toNat + 4 * n ≤ x.toNat) :
    fill mem a v n x = mem x := by
  refine fill_outside fun i hi h => ?_
  have := row_toNat hn hi
  rw [← h] at this
  omega

/-- **The code does what `Mem.setupPaging` says.** -/
theorem memory_tables (mem : Dword → Dword) (mm : Nat → BitVec 8) :
    memory (tables mem) mm = (memory mem mm).setupPaging := by
  refine congrArg (Mem.mk mm) ?_
  funext f i
  have hdir : (PAGE_DIR_ADDR : Dword).toNat = 0x7000 := rfl
  have hpage : page0.toNat = 0x8000 := rfl
  by_cases hin : f < 2 ^ 20 ∧ i < 1024
  · have hx := address_toNat hin.1 hin.2
    rw [if_pos hin, tables]
    show _ = if f = 7 ∧ i < 8 then _ else if 8 ≤ f ∧ f < 16 ∧ i < 1024 then _ else _
    split_ifs with h₁ h₂
    · have hrow : BitVec.ofNat 32 (4096 * f + 4 * i) = PAGE_DIR_ADDR + BitVec.ofNat 32 (4 * i) := by
        rw [h₁.1, BitVec.ofNat_add]
        rfl
      rw [fill_other (by rw [hpage]; decide) (by omega), hrow, fill_inside (by decide) h₁.2,
        mul_comm]
      rfl
    · have hrow : BitVec.ofNat 32 (4096 * f + 4 * i) =
          page0 + BitVec.ofNat 32 (4 * ((f - 8) * 1024 + i)) := by
        rw [show 4096 * f + 4 * i = 0x8000 + 4 * ((f - 8) * 1024 + i) by omega, BitVec.ofNat_add]
        rfl
      rw [hrow, fill_inside (by decide) (by omega), mul_comm]
    · rw [fill_other (by rw [hpage]; decide) (by omega),
        fill_other (by rw [hdir]; decide) (by omega)]
      exact (if_pos hin).symm
  · rw [if_neg hin]
    show _ = if f = 7 ∧ i < 8 then _ else if 8 ≤ f ∧ f < 16 ∧ i < 1024 then _ else _
    rw [if_neg (by omega), if_neg (by omega)]
    exact (if_neg hin).symm

/-- The dword at an address of a memory of bytes. -/
def dword (mem : Disk.Bytes) (a : Nat) : Dword := mem (a + 3) ++ mem (a + 2) ++ mem (a + 1) ++ mem a

/-- The gates that `load_idt` leaves. -/
theorem gate_at (mem : Dword → Dword) (x y : Dword) {v : Nat} (hv : v ≤ 255) :
    let m := fill mem IDT_ADDR (fun i => if i % 2 = 0 then x else y) 512
    m (gateAddr v) = x ∧ m (gateAddr v + 4) = y := by
  intro m
  have hlow : gateAddr v = IDT_ADDR + BitVec.ofNat 32 (4 * (2 * v)) := by
    rw [gateAddr, ← Nat.mul_assoc]
  have hhigh : gateAddr v + 4 = IDT_ADDR + BitVec.ofNat 32 (4 * (2 * v + 1)) := by
    rw [hlow, add_assoc, Nat.mul_succ 4, BitVec.ofNat_add]
    rfl
  constructor
  · rw [hlow]
    exact (fill_inside (by decide) (by omega)).trans (if_pos (by omega))
  · rw [hhigh]
    exact (fill_inside (by decide) (by omega)).trans (if_neg (by omega))

end

/-- The page directory is zero where the boot sector has read it from behind the end of `setup32`,
and `load_idt` leaves it alone. -/
theorem bare_of_read {read : Disk.Bytes} {setup32 : List Disk.Byte}
    (hread : ∀ i < 45056, read (0x5000 + i) = setup32.getD i 0) (hlen : setup32.length ≤ 8192)
    {mem : Dword → Dword} (hdir : ∀ d < 1024, mem (PAGE_DIR_ADDR + BitVec.ofNat 32 (4 * d)) =
      dword read (0x7000 + 4 * d)) (v : Nat → Dword) {mm : Nat → BitVec 8} :
    Mem.Bare (memory (fill mem IDT_ADDR v 512) mm) := by
  intro d hd hd'
  have hbyte : ∀ k < 4, read (0x7000 + 4 * d + k) = 0 := by
    intro k hk
    rw [show 0x7000 + 4 * d + k = 0x5000 + (0x2000 + 4 * d + k) by omega, hread _ (by omega),
      List.getD_eq_getElem?_getD, List.getElem?_eq_none (by omega)]
    rfl
  have hbyte₀ : read (0x7000 + 4 * d) = 0 := hbyte 0 (by decide)
  have hidt : (IDT_ADDR : Dword).toNat = 0x6000 := rfl
  have hx := address_toNat (f := 7) (by decide) hd'
  show (if 7 < 2 ^ 20 ∧ d < 1024 then fill mem IDT_ADDR v 512 _ else 0) = 0
  rw [if_pos ⟨by decide, hd'⟩, fill_other (by rw [hidt]; decide) (by omega), BitVec.ofNat_add]
  refine (hdir d hd').trans ?_
  rw [dword, hbyte 3 (by decide), hbyte 2 (by decide), hbyte 1 (by decide), hbyte₀]
  rfl

open Disk in
/-- **From the image to paging.** When the boot sector has read an image whose `setup32` takes at
most 8KB, and the page directory is still as it has been read, `load_idt` and `setup_paging` leave
256 gates to `ignore_int` and, with paging on, the tables of `Mem.setupPaging` over a page directory
that was zero: the first 32MB are mapped to themselves and nothing else is mapped. -/
theorem setup32_tables (bios : Disk.Request → Bool)
    (hbios : ∀ r : Disk.Request, r.InTrack → bios r = false) (files : Files)
    (hlen : files.setup32.length ≤ 8192) (b : Disk.Machine) (hb : b.logicSector = 1)
    (hr : b.readed = 0) (mem : Bytes) (fuel n : Nat) (hf : 128 < fuel) (hn : 8 < n)
    (ignoreInt : Dword) (mm : Nat → BitVec 8) :
    ∃ b', realStart bios fuel n b = some (.ok b') ∧ ∀ m : Loops.Machine,
      (∀ d < 1024, m.mem (PAGE_DIR_ADDR + BitVec.ofNat 32 (4 * d)) =
        dword (memoryAfter (image files) mem b b') (0x7000 + 4 * d)) →
      ∃ m₁ m₂, Reaches (step (code ignoreInt)) (code ignoreInt .loadIdt, m) ([.ret], m₁) ∧
        Reaches (step (code ignoreInt)) (code ignoreInt .setupPaging, m₁) ([.ret], m₂) ∧
        m₂.idtr = (256 * 8 - 1, IDT_ADDR) ∧
        (∀ v ≤ 255, decodeGate (m₂.mem (gateAddr v)) (m₂.mem (gateAddr v + 4)) =
          ⟨ignoreInt, 0x08, 14, 0, true⟩) ∧
        m₂.cr3 = PAGE_DIR_ADDR ∧ m₂.cr0 = m.cr0 ||| 0x80000000 ∧
        ∃ setup, Mem.Bare setup ∧ memory m₂.mem mm = setup.setupPaging ∧
          ∀ p < 2 ^ 20, (memory m₂.mem mm).frameOf p = if p < 8192 then some p else none := by
  obtain ⟨b', hrun, -, hsetup32, -⟩ := image_loaded bios hbios files b hb hr mem fuel n hf hn
  refine ⟨b', hrun, fun m hdir => ?_⟩
  obtain ⟨m₁, h₁, hidtr₁, hcr0₁, hmem₁⟩ := load_idt_reaches ignoreInt m
  obtain ⟨m₂, h₂, hcr3, hcr0₂, hidtr₂, hmem₂⟩ := setup_paging_reaches ignoreInt m₁
  have htables : memory m₂.mem mm = (memory m₁.mem mm).setupPaging := by
    rw [hmem₂, memory_tables]
  have hbare : Mem.Bare (memory m₁.mem mm) := hmem₁ ▸ bare_of_read hsetup32 hlen hdir _
  refine ⟨m₁, m₂, h₁, h₂, hidtr₂.trans hidtr₁, fun v hv => ?_, hcr3, by rw [hcr0₂, hcr0₁],
    memory m₁.mem mm, hbare, htables, fun p hp => ?_⟩
  · have hlow := gateAddr_toNat hv
    have hhigh := gateAddr_high_toNat hv
    have hpage : page0.toNat = 0x8000 := rfl
    have hpd : (PAGE_DIR_ADDR : Dword).toNat = 0x7000 := rfl
    have hkeep : ∀ x : Dword, x.toNat < 0x7000 → m₂.mem x = m₁.mem x := by
      intro x hx
      rw [hmem₂, tables, fill_other (by rw [hpage]; decide) (by omega),
        fill_other (by rw [hpd]; decide) (by omega)]
    obtain ⟨hg₁, hg₂⟩ := gate_at m.mem (setGate 14 0 ignoreInt).1
      (setGate 14 0 ignoreInt).2 hv
    rw [hkeep _ (by omega), hkeep _ (by omega), hmem₁, hg₁, hg₂, decode_setGate (by decide)
      (by decide)]
    rfl
  · rw [htables]
    split_ifs with h
    · rw [Mem.frameOf, Mem.setupPaging_page _ h, Mem.entryFrame_frameAddr (by omega)]
    · exact Mem.frameOf_none (Mem.setupPaging_bare hbare (by omega) (by omega))

open Disk in
theorem setup32_tables_byte : ∃ b' m₂, realStart (fun r => !decide r.InTrack) 129 9 atRealStart =
    some (.ok b') ∧ (memory m₂ fun _ => 0).frameOf 5 = some 5 := by
  obtain ⟨b', hrun, h⟩ := setup32_tables (fun r => !decide r.InTrack) (by simp) sampleFiles
    List.length_replicate.le atRealStart rfl rfl (fun _ => 0) 129 9 (by decide) (by decide) 0x5100
    (fun _ => 0)
  let m : Loops.Machine :=
    ⟨fun _ => 0, fun a => dword (memoryAfter (image sampleFiles) (fun _ => 0) atRealStart b') a.toNat,
      false, 1, 0, (0, 0)⟩
  have hm : ∀ d < 1024, m.mem (PAGE_DIR_ADDR + BitVec.ofNat 32 (4 * d)) =
      dword (memoryAfter (image sampleFiles) (fun _ => 0) atRealStart b') (0x7000 + 4 * d) := by
    intro d hd
    have hpd : (PAGE_DIR_ADDR : Dword).toNat = 0x7000 := rfl
    exact congrArg (dword _) (row_toNat (n := 1024) (by rw [hpd]; decide) hd)
  obtain ⟨m₁, m₂, -, -, -, -, -, -, setup, -, -, hmap⟩ := h m hm
  exact ⟨b', m₂.mem, hrun, hmap 5 (by decide)⟩

end Mks.Setup32
