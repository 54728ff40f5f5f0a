import Mks.Driver.Keyboard

set_option autoImplicit false

/-! # The accesses of the keyboard driver

The queue's pointers stay in order and in `kbd.buf` whatever the keyboard sends, and so do all accesses
to the buffer. `keymap` ends at the scan code of the caps lock key: the make codes above it, those
of the function keys and the keypad, lead past its end (`keyboard_inTables`).
-/

namespace Mks.Keyboard

namespace Kbdqueue

/-- The element of `kbd.buf` that `enqueue` writes. -/
def enqueueAccess (kbd : Kbdqueue) : List Nat :=
  if kbd.tail = KBD_BUF_SIZE then [] else [kbd.tail]

/-- The element of `kbd.buf` that `headqueue` reads. -/
def headqueueAccess (kbd : Kbdqueue) : List Nat := if kbd.tail = kbd.head then [] else [kbd.head]

theorem enqueueAccess_lt (kbd : Kbdqueue) : ∀ i ∈ kbd.enqueueAccess, i < KBD_BUF_SIZE := by
  intro i hi
  have htail := kbd.tail_le
  rw [enqueueAccess] at hi
  split_ifs at hi with h
  · cases hi
  · rw [List.mem_singleton] at hi
    omega

theorem headqueueAccess_lt (kbd : Kbdqueue) : ∀ i ∈ kbd.headqueueAccess, i < KBD_BUF_SIZE := by
  intro i hi
  have hhead := kbd.head_le
  have htail := kbd.tail_le
  rw [headqueueAccess] at hi
  split_ifs at hi with h
  · cases hi
  · rw [List.mem_singleton] at hi
    omega

end Kbdqueue

/-- The elements of `kbd.buf` that `do_intr_keyboard` reads and writes. -/
def bufAccesses (kbd : Kbdqueue) (scanCode : Byte) : List Nat :=
  if scanCode &&& 0x80 = MAKE then
    if scanCode ≠ SHIFT_L ∧ scanCode ≠ SHIFT_R then kbd.headqueueAccess
    else if scanCode = SHIFT_L ∨ scanCode = SHIFT_R then kbd.enqueueAccess
    else []
  else [] -- `dequeue` moves the pointers only

/-- The element of `keymap` that it reads. -/
def keymapAccesses (kbd : Kbdqueue) (scanCode : Byte) : List Nat :=
  (doIntrKeyboard kbd scanCode).2.toList

/-- An interrupt stays in the tables, and leaves the pointers in order. -/
structure StaysInTables (kbd : Kbdqueue) (scanCode : Byte) : Prop where
  buf : ∀ i ∈ bufAccesses kbd scanCode, i < KBD_BUF_SIZE
  keymap : ∀ i ∈ keymapAccesses kbd scanCode, i < keymap.length
  head_le : (doIntrKeyboard kbd scanCode).1.head ≤ (doIntrKeyboard kbd scanCode).1.tail
  tail_le : (doIntrKeyboard kbd scanCode).1.tail ≤ KBD_BUF_SIZE

/-- Every interrupt of a sequence stays in the tables. -/
def InTables : Kbdqueue → List Byte → Prop
  | _, [] => True
  | kbd, c :: codes => StaysInTables kbd c ∧ InTables (doIntrKeyboard kbd c).1 codes

/-! ## One interrupt -/

theorem bufAccesses_lt (kbd : Kbdqueue) (c : Byte) : ∀ i ∈ bufAccesses kbd c, i < KBD_BUF_SIZE := by
  rw [bufAccesses]
  split_ifs
  · exact kbd.headqueueAccess_lt
  · exact kbd.enqueueAccess_lt
  · exact fun i hi => absurd hi (by simp)
  · exact fun i hi => absurd hi (by simp)

theorem keymap_length : keymap.length = 59 * MAP_COL := by decide +kernel

theorem keymapcol_lt (kbd : Kbdqueue) : keymapcol kbd < MAP_COL := by
  rw [keymapcol]
  split_ifs <;> decide

/-- The make codes without an entry in `keymap`. -/
def NoEntry (c : Byte) : Prop := 0x3B ≤ c.toNat ∧ c.toNat ≤ 0x7F

theorem NoEntry.ordinary {c : Byte} (h : NoEntry c) : Ordinary c := by
  have hall : ∀ c : Byte, 0x3B ≤ c.toNat ∧ c.toNat ≤ 0x7F → Ordinary c := by decide
  exact hall c h

theorem Ordinary.toNat_le {c : Byte} (h : Ordinary c) : c.toNat ≤ 0x7F := by
  have hall : ∀ c : Byte, Ordinary c → c.toNat ≤ 0x7F := by decide
  exact hall c h

/-- A key that is not ordinary reads no element of `keymap`. -/
theorem keymapAccesses_of_not_ordinary (kbd : Kbdqueue) {c : Byte} (h : ¬ Ordinary c) :
    keymapAccesses kbd c = [] := by
  have hnone : (doIntrKeyboard kbd c).2 = none := by
    rw [doIntrKeyboard]
    split_ifs with hm ho
    · exact absurd ⟨hm, ho⟩ h
    all_goals rfl
  rw [keymapAccesses, hnone]
  rfl

theorem staysInTables_iff (kbd : Kbdqueue) (c : Byte) : StaysInTables kbd c ↔ ¬ NoEntry c := by
  constructor
  · intro hs hc
    have hi := hs.keymap
    rw [keymapAccesses, doIntrKeyboard_ordinary hc.ordinary] at hi
    have hlt := hi _ (List.mem_singleton.mpr rfl)
    have := hc.1
    rw [keymap_length, MAP_COL] at hlt
    omega
  · intro hc
    refine ⟨bufAccesses_lt kbd c, ?_, Kbdqueue.head_le _, Kbdqueue.tail_le _⟩
    by_cases ho : Ordinary c
    · rw [keymapAccesses, doIntrKeyboard_ordinary ho]
      intro i hi
      have hcol := keymapcol_lt kbd
      have hle := ho.toNat_le
      rw [List.mem_singleton.mp hi, keymap_length]
      rw [NoEntry] at hc
      rw [MAP_COL] at hcol ⊢
      omega
    · rw [keymapAccesses_of_not_ordinary kbd ho]
      exact fun i hi => absurd hi (by simp)

/-! ## Sequences -/

theorem inTables_iff (kbd : Kbdqueue) (codes : List Byte) :
    InTables kbd codes ↔ ∀ c ∈ codes, ¬ NoEntry c := by
  induction codes generalizing kbd with
  | nil => simp [InTables]
  | cons c codes ih => rw [InTables, staysInTables_iff, ih, List.forall_mem_cons]

/-- The driver stays in its tables if and only if the keyboard sends none of the bytes 0x3B to
0x7F. -/
theorem keyboard_inTables (kbd : Kbdqueue) (codes : List Byte) :
    InTables (keyboardInit kbd) codes ↔ ∀ c ∈ codes, ¬ (0x3B ≤ c.toNat ∧ c.toNat ≤ 0x7F) :=
  inTables_iff (keyboardInit kbd) codes

/-- The make code of F1 reads the element 177 of `keymap`, which has 177. -/
theorem keyboard_not_inTables :
    ¬ InTables (keyboardInit ⟨fun _ => 0, 0, 0, le_rfl, Nat.zero_le _⟩) [0x3B] := by
  rw [inTables_iff]
  intro h
  exact h 0x3B (by simp) ⟨by decide, by decide⟩

end Mks.Keyboard
