import Mks.Interrupt.Transparent

set_option autoImplicit false

/-! # The descriptor table in memory (`_set_gate` in `include/asm/system.h`)

The gates of `intr_init` are two dwords each in the memory from `IDT_ADDR` on. The processor reads
there the gate that was meant, for every vector, and `intr_init` writes nothing else
(`idt_in_memory`).
-/

namespace Mks.Interrupt

open X86

/-! ## Gate descriptors -/

/-- What the processor reads in the two dwords of a gate. -/
structure GateDesc where
  offset : Dword
  selector : Selector
  type : BitVec 5
  dpl : BitVec 2
  present : Bool
deriving DecidableEq

def decodeGate (a b : Dword) : GateDesc where
  offset := b.extractLsb' 16 16 ++ a.extractLsb' 0 16
  selector := a.extractLsb' 16 16
  type := b.extractLsb' 8 5
  dpl := b.extractLsb' 13 2
  present := b.getLsbD 15

/-- The immediate operand of `_set_gate`. -/
def gateFlags (type dpl : Nat) : BitVec 16 := BitVec.ofNat 16 (0x8000 + dpl * 2 ^ 13 + type * 2 ^ 8)

/-- `_set_gate`: `movw %dx, %ax` and `movw $flags, %dx`, with the address in `edx` and `0x00080000`
in `eax`, which are then the two dwords. -/
def setGate (type dpl : Nat) (addr : Dword) : Dword × Dword :=
  let eax : Dword := 0x00080000
  (eax.extractLsb' 16 16 ++ addr.extractLsb' 0 16, addr.extractLsb' 16 16 ++ gateFlags type dpl)

theorem decode_flags {type dpl : Nat} (ht : type < 16) (hd : dpl < 4) :
    (gateFlags type dpl).extractLsb' 8 5 = BitVec.ofNat 5 type ∧
      (gateFlags type dpl).extractLsb' 13 2 = BitVec.ofNat 2 dpl ∧
      (gateFlags type dpl).getLsbD 15 = true := by
  interval_cases type <;> interval_cases dpl <;> decide

/-- **The two dwords decode** to the address, the kernel's code segment, the type and the
privilege. -/
theorem decode_setGate {type dpl : Nat} (ht : type < 16) (hd : dpl < 4) (addr : Dword) :
    decodeGate (setGate type dpl addr).1 (setGate type dpl addr).2 =
      ⟨addr, 0x08, BitVec.ofNat 5 type, BitVec.ofNat 2 dpl, true⟩ := by
  obtain ⟨h₁, h₂, h₃⟩ := decode_flags ht hd
  simp only [decodeGate, setGate, GateDesc.mk.injEq]
  refine ⟨?_, ?_, ?_, ?_, ?_⟩
  · rw [BitVec.extractLsb'_append_eq_left, BitVec.extractLsb'_append_eq_right]
    have h : addr.extractLsb' 16 16 ++ addr.extractLsb' 0 16 = addr.extractLsb' 0 (16 + 16) :=
      BitVec.extractLsb'_append_extractLsb'_eq_extractLsb' rfl
    exact h.trans BitVec.extractLsb'_eq_self
  · rw [BitVec.extractLsb'_append_eq_left]
    rfl
  · rw [BitVec.extractLsb'_append_eq_of_add_le (by decide), h₁]
  · rw [BitVec.extractLsb'_append_eq_of_add_le (by decide), h₂]
  · rw [BitVec.getLsbD_append]
    exact h₃

/-! ## The table -/

def IDT_ADDR : Dword := 0x6000

/-- `idt + n` -/
def gateAddr (n : Nat) : Dword := IDT_ADDR + BitVec.ofNat 32 (8 * n)

/-- The memory, as the dword at each address. -/
abbrev Memory := Dword → Dword

/-- The two stores of `_set_gate(idt + n, ...)`. -/
def writeGate (link : Label → Dword) (n : Nat) (g : Gate) (m : Memory) : Memory :=
  let d := setGate g.type g.dpl (link g.addr)
  Function.update (Function.update m (gateAddr n) d.1) (gateAddr n + 4) d.2

/-- `for(i=lo; i<hi; i++) _set_gate(idt + i, f(i))` -/
def writeGates (link : Label → Dword) (lo hi : Nat) (f : Nat → Gate) (m : Memory) : Memory :=
  (List.range' lo (hi - lo)).foldl (fun m i => writeGate link i (f i) m) m

/-- What `intr_init` does to the descriptor table. `link` are the addresses of the code. -/
def writeIdt (link : Label → Dword) (m : Memory) : Memory :=
  let m := writeGates link 0 3 (fun i => setTrapGate (intrEnter i)) m
  let m := writeGates link 3 6 (fun i => setSystemGate (intrEnter i)) m
  let m := writeGates link 6 20 (fun i => setTrapGate (intrEnter i)) m
  let m := writeGates link 20 32 (fun _ => setTrapGate .intrReserved) m
  let m := writeGates link 32 48 (fun i => setTrapGate (hwintrEnter (i - 32))) m
  let m := writeGates link 48 256 (fun _ => setTrapGate .intrReserved) m
  let m := writeGate link 14 (setIntrGate (intrEnter 14)) m
  let m := writeGate link 0x80 (setSystemGate .intrMsg) m
  writeGate link 0x88 (setSystemGate .intrKercall) m

/-! ## The gates in the memory -/

theorem gateAddr_toNat {n : Nat} (hn : n ≤ 255) : (gateAddr n).toNat = 0x6000 + 8 * n := by
  rw [gateAddr, BitVec.toNat_add, BitVec.toNat_ofNat]
  show (0x6000 + 8 * n % 2 ^ 32) % 2 ^ 32 = _
  omega

theorem gateAddr_high_toNat {n : Nat} (hn : n ≤ 255) :
    (gateAddr n + 4).toNat = 0x6000 + 8 * n + 4 := by
  rw [BitVec.toNat_add, gateAddr_toNat hn]
  show (0x6000 + 8 * n + 4) % 2 ^ 32 = _
  omega

/-- `m` has the gates of `t`, and is `m₀` outside the table. -/
structure HasGates (link : Label → Dword) (m₀ : Memory) (t : Nat → Option Gate) (m : Memory) :
    Prop where
  inTable : ∀ v g, t v = some g → v ≤ 255
  entry : ∀ v g, t v = some g →
    (m (gateAddr v), m (gateAddr v + 4)) = setGate g.type g.dpl (link g.addr)
  outside : ∀ a : Dword, a.toNat < 0x6000 ∨ 0x6800 ≤ a.toNat → m a = m₀ a

variable {link : Label → Dword} {m₀ m : Memory} {t : Nat → Option Gate}

/-- One gate is written. -/
theorem HasGates.put (h : HasGates link m₀ t m) {n : Nat} (hn : n ≤ 255) (g : Gate) :
    HasGates link m₀ (put n g t) (writeGate link n g m) := by
  have hlow := gateAddr_toNat hn
  have hhigh := gateAddr_high_toNat hn
  have hne : ∀ {a b : Dword}, a.toNat ≠ b.toNat → a ≠ b := fun h e => h (e ▸ rfl)
  constructor
  · intro v g' hv
    rw [put_apply] at hv
    split_ifs at hv with e
    · omega
    · exact h.inTable v g' hv
  · intro v g' hv
    rw [put_apply] at hv
    split_ifs at hv with e
    · subst e
      obtain rfl := Option.some.inj hv
      rw [writeGate, Function.update_self, Function.update_of_ne (hne (by omega)),
        Function.update_self]
    · have hv255 := h.inTable v g' hv
      have h₁ := gateAddr_toNat hv255
      have h₂ := gateAddr_high_toNat hv255
      rw [writeGate, Function.update_of_ne (hne (by omega)), Function.update_of_ne (hne (by omega)),
        Function.update_of_ne (hne (by omega)), Function.update_of_ne (hne (by omega))]
      exact h.entry v g' hv
  · intro a ha
    rw [writeGate, Function.update_of_ne (hne (by omega)), Function.update_of_ne (hne (by omega))]
    exact h.outside a ha

/-- A loop over the gates. -/
theorem HasGates.fill (h : HasGates link m₀ t m) {lo hi : Nat} (hhi : hi ≤ 256) (f : Nat → Gate) :
    HasGates link m₀ (fill lo hi f t) (writeGates link lo hi f m) := by
  unfold Interrupt.fill writeGates
  have hlo : lo + (hi - lo) ≤ 256 ∨ hi - lo = 0 := by omega
  generalize hi - lo = n at hlo
  -- on the number of gates that are left
  induction n generalizing lo t m with
  | zero => exact h
  | succ n ih =>
      rw [List.range'_succ, List.foldl_cons, List.foldl_cons]
      exact ih (h.put (by omega) (f lo)) (by omega)

theorem writeIdt_hasGates (link : Label → Dword) (m : Memory) :
    HasGates link m idt (writeIdt link m) := by
  have h : HasGates link m (fun _ => none) m := ⟨by simp, by simp, fun _ _ => rfl⟩
  unfold idt writeIdt
  exact ((((((((h.fill (by decide) _).fill (by decide) _).fill (by decide) _).fill (by decide) _).fill
    (by decide) _).fill (by decide) _).put (by decide) _).put (by decide) _).put (by decide) _

/-- The type and the privilege of each gate. -/
theorem idt_gate {v : Nat} {g : Gate} (h : idt v = some g) :
    g.type = (if v = 14 then 14 else 15) ∧
      g.dpl = if v = 3 ∨ v = 4 ∨ v = 5 ∨ v = 0x80 ∨ v = 0x88 then 3 else 0 := by
  simp only [idt, put_apply, fill_apply] at h
  split_ifs at h <;> obtain rfl := Option.some.inj h <;> constructor <;>
    first
    | exact (if_pos (by omega)).symm
    | exact (if_neg (by omega)).symm

/-- **The descriptor table.** After `intr_init` the processor reads in the entry of every vector the
address of its entry code, in the kernel's code segment. Processes may call the vectors 3, 4, 5, 0x80
and 0x88, only the page fault turns interrupts off, and the memory around the table, with the GDT
behind it, is as it was. -/
theorem idt_in_memory (link : Label → Dword) (m : Memory) :
    (∀ v ≤ 255, ∃ g, idt v = some g ∧
      decodeGate (writeIdt link m (gateAddr v)) (writeIdt link m (gateAddr v + 4)) =
        ⟨link g.addr, 0x08, if v = 14 then 14 else 15,
          if v = 3 ∨ v = 4 ∨ v = 5 ∨ v = 0x80 ∨ v = 0x88 then 3 else 0, true⟩) ∧
    ∀ a : Dword, a.toNat < 0x6000 ∨ 0x6800 ≤ a.toNat → writeIdt link m a = m a := by
  have h := writeIdt_hasGates link m
  refine ⟨fun v hv => ?_, h.outside⟩
  obtain ⟨g, hg, -⟩ := Option.map_eq_some_iff.mp (idt_addr hv)
  obtain ⟨ht, hd⟩ := idt_gate hg
  have h₁ : writeIdt link m (gateAddr v) = (setGate g.type g.dpl (link g.addr)).1 :=
    congrArg Prod.fst (h.entry v g hg)
  have h₂ : writeIdt link m (gateAddr v + 4) = (setGate g.type g.dpl (link g.addr)).2 :=
    congrArg Prod.snd (h.entry v g hg)
  refine ⟨g, hg, ?_⟩
  rw [h₁, h₂, decode_setGate (by rw [ht]; split_ifs <;> decide) (by rw [hd]; split_ifs <;> decide),
    ht, hd]
  split_ifs <;> rfl

end Mks.Interrupt
