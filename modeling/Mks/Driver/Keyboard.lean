import Mathlib.Data.BitVec
import Mathlib.Logic.Function.Basic
import Mathlib.Tactic

set_option autoImplicit false

/-! # The keyboard driver (`driver/character/keyboard.c`)

The driver remembers the shift keys that are held in a queue: the make code of a shift key is
appended, a break code drops the first element, and an ordinary key is shifted if the queue is not
empty. The queue does not know which keys it holds: it is right as long as it holds as many codes as
shift keys are held (`Tracks`). A make code that is repeated while the key is held is appended
again, and a full queue takes no more; after either, releasing the keys leaves the driver wrong
(`shift_works`).
-/

namespace Mks.Keyboard

abbrev Byte := BitVec 8

def MAKE : Byte := 0
def BREAK : Byte := 0x80
def KBD_BUF_SIZE : Nat := 64
def MAP_COL : Nat := 3
def NO_SHIFT : Nat := 0
def WITH_SHIFT : Nat := 1
def SHIFT_L : Byte := 0x2A
def SHIFT_R : Byte := 0x36

/-- Three characters for each scan code: without and with shift, and one that is not used. -/
def keymap : List Char :=
  [ '\x00', '\x00', '\x00',
    '\x00', '\x00', '\x00', -- esc
    '1', '!', '\x00',
    '2', '@', '\x00',
    '3', '#', '\x00',
    '4', '$', '\x00',
    '5', '%', '\x00',
    '6', '^', '\x00',
    '7', '&', '\x00',
    '8', '*', '\x00',
    '9', '\x28', '\x00',
    '0', '\x29', '\x00',
    '-', '_', '\x00',
    '=', '+', '\x00',
    '\x08', '\x08', '\x00', -- backspace
    '\t', '\t', '\x00', -- tab
    'q', 'Q', '\x00',
    'w', 'W', '\x00',
    'e', 'E', '\x00',
    'r', 'R', '\x00',
    't', 'T', '\x00',
    'y', 'Y', '\x00',
    'u', 'U', '\x00',
    'i', 'I', '\x00',
    'o', 'O', '\x00',
    'p', 'P', '\x00',
    '\x5b', '\x7b', '\x00',
    '\x5d', '\x7d', '\x00',
    '\n', '\n', '\x00', -- enter
    '\x00', '\x00', '\x00', -- ctrl_l
    'a', 'A', '\x00',
    's', 'S', '\x00',
    'd', 'D', '\x00',
    'f', 'F', '\x00',
    'g', 'G', '\x00',
    'h', 'H', '\x00',
    'j', 'J', '\x00',
    'k', 'K', '\x00',
    'l', 'L', '\x00',
    ';', ':', '\x00',
    '\x27', '\x22', '\x00',
    '\x60', '~', '\x00',
    '\x00', '\x00', '\x00', -- shift_l
    '\x5c', '|', '\x00',
    'z', 'Z', '\x00',
    'x', 'X', '\x00',
    'c', 'C', '\x00',
    'v', 'V', '\x00',
    'b', 'B', '\x00',
    'n', 'N', '\x00',
    'm', 'M', '\x00',
    ',', '<', '\x00',
    '.', '>', '\x00',
    '/', '?', '\x00',
    '\x00', '\x00', '\x00', -- shift_r
    '*', '*', '\x00',
    '\x00', '\x00', '\x00', -- alt_l
    ' ', ' ', '\x00',
    '\x00', '\x00', '\x00' ]  -- caps_lock

/-! ## The queue -/

/-- `head` and `tail` are indices of `buf`. -/
structure Kbdqueue where
  buf : Nat → Byte
  head : Nat
  tail : Nat
  head_le : head ≤ tail
  tail_le : tail ≤ KBD_BUF_SIZE

def keyboardInit (kbd : Kbdqueue) : Kbdqueue where
  buf := kbd.buf
  head := 0
  tail := 0
  head_le := le_rfl
  tail_le := Nat.zero_le _

namespace Kbdqueue

def enqueue (kbd : Kbdqueue) (code : Byte) : Int × Kbdqueue :=
  if h : kbd.tail = KBD_BUF_SIZE then (-1, kbd)
  else
    (0, { buf := Function.update kbd.buf kbd.tail code
          head := kbd.head
          tail := kbd.tail + 1
          head_le := Nat.le_succ_of_le kbd.head_le
          tail_le := Nat.lt_of_le_of_ne kbd.tail_le h })

def dequeue (kbd : Kbdqueue) : Kbdqueue :=
  if ht : kbd.tail = 0 then kbd
  else if hh : kbd.head = kbd.tail ∧ kbd.head ≠ 0 then keyboardInit kbd
  else { kbd with
    head := kbd.head + 1
    head_le := by
      have := kbd.head_le
      omega }

def headqueue (kbd : Kbdqueue) : Byte := if kbd.tail = kbd.head then 0 else kbd.buf kbd.head

/-- The number of codes in the queue. -/
def count (kbd : Kbdqueue) : Nat := kbd.tail - kbd.head

/-- The queue holds codes of shift keys only. -/
def Codes (kbd : Kbdqueue) : Prop :=
  ∀ i, kbd.head ≤ i → i < kbd.tail → kbd.buf i = SHIFT_L ∨ kbd.buf i = SHIFT_R

end Kbdqueue

/-- The column of `keymap` for an ordinary key. -/
def keymapcol (kbd : Kbdqueue) : Nat :=
  if kbd.headqueue = SHIFT_L ∨ kbd.headqueue = SHIFT_R then WITH_SHIFT else NO_SHIFT

/-- The queue afterwards, and the index in `keymap` of the character that is printed. -/
def doIntrKeyboard (kbd : Kbdqueue) (scanCode : Byte) : Kbdqueue × Option Nat :=
  if scanCode &&& 0x80 = MAKE then
    if scanCode ≠ SHIFT_L ∧ scanCode ≠ SHIFT_R then
      (kbd, some (scanCode.toNat * MAP_COL + keymapcol kbd))
    else if scanCode = SHIFT_L ∨ scanCode = SHIFT_R then ((kbd.enqueue scanCode).2, none)
    else (kbd, none)
  else if scanCode &&& 0x80 = BREAK then
    if scanCode &&& 0x7F = SHIFT_L ∨ scanCode &&& 0x7F = SHIFT_R then (kbd.dequeue, none)
    else (kbd, none)
  else (kbd, none)

/-! ## The keys -/

inductive Shift
  | left
  | right
  deriving DecidableEq

namespace Shift

def makeCode : Shift → Byte
  | left => SHIFT_L
  | right => SHIFT_R

def breakCode (s : Shift) : Byte := s.makeCode ||| BREAK

def other : Shift → Shift
  | left => right
  | right => left

instance {p : Shift → Prop} [DecidablePred p] : Decidable (∀ s, p s) :=
  decidable_of_iff (p left ∧ p right)
    ⟨fun h s => match s with | left => h.1 | right => h.2, fun h => ⟨h left, h right⟩⟩

end Shift

/-- The make code of a key that is not a shift key. -/
def Ordinary (c : Byte) : Prop := c &&& 0x80 = MAKE ∧ c ≠ SHIFT_L ∧ c ≠ SHIFT_R

instance : DecidablePred Ordinary := fun _ => inferInstanceAs (Decidable (_ ∧ _))

/-- The shift keys that are held. -/
abbrev Keys := Shift → Bool

def noKeys : Keys := fun _ => false

/-- A key is held from its make code until its next break code. -/
def press (held : Keys) (c : Byte) : Keys := fun s =>
  if c = s.makeCode then true else if c = s.breakCode then false else held s

/-- At least one shift key is held. -/
def Held (held : Keys) : Prop := held .left = true ∨ held .right = true

instance (held : Keys) : Decidable (Held held) := inferInstanceAs (Decidable (_ ∨ _))

/-- Every ordinary key is translated with the column for shift if and only if a shift key is
held. -/
def ShiftWorks : Kbdqueue → Keys → List Byte → Prop
  | _, _, [] => True
  | kbd, held, c :: codes =>
      (Ordinary c → (doIntrKeyboard kbd c).2 =
        some (c.toNat * MAP_COL + if Held held then WITH_SHIFT else NO_SHIFT)) ∧
      ShiftWorks (doIntrKeyboard kbd c).1 (press held c) codes

/-- The driver can follow the scan code: it is the make code of a shift key that is not held, and
the queue is not full, or of one that is held, and the queue is full; or it is the break code of a
shift key that is held, or no shift key is held; or it belongs to another key. -/
def Regular (kbd : Kbdqueue) (held : Keys) (c : Byte) : Prop :=
  (∀ s : Shift, c = s.makeCode → (kbd.tail = KBD_BUF_SIZE ↔ held s = true)) ∧
    ∀ s : Shift, c = s.breakCode → held s = true ∨ ¬ Held held

instance (kbd : Kbdqueue) (held : Keys) (c : Byte) : Decidable (Regular kbd held c) :=
  inferInstanceAs (Decidable (_ ∧ _))

def AllRegular : Kbdqueue → Keys → List Byte → Prop
  | _, _, [] => True
  | kbd, held, c :: codes =>
      Regular kbd held c ∧ AllRegular (doIntrKeyboard kbd c).1 (press held c) codes

instance AllRegular.dec : ∀ kbd held codes, Decidable (AllRegular kbd held codes)
  | _, _, [] => .isTrue trivial
  | kbd, held, c :: codes =>
      have := dec (doIntrKeyboard kbd c).1 (press held c) codes
      inferInstanceAs (Decidable (_ ∧ _))

/-- Shift keys are only released, and ordinary keys pressed. -/
def Releases : Keys → List Byte → Prop
  | _, [] => True
  | held, c :: codes =>
      (Ordinary c ∨ ∃ s : Shift, c = s.breakCode ∧ held s = true) ∧ Releases (press held c) codes

/-! ## One interrupt -/

section
variable {kbd : Kbdqueue} {held : Keys} {s : Shift} {c : Byte}

theorem doIntrKeyboard_make :
    doIntrKeyboard kbd s.makeCode = ((kbd.enqueue s.makeCode).2, none) := by
  cases s <;> rfl

theorem doIntrKeyboard_break : doIntrKeyboard kbd s.breakCode = (kbd.dequeue, none) := by
  cases s <;> rfl

theorem doIntrKeyboard_ordinary (hc : Ordinary c) :
    doIntrKeyboard kbd c = (kbd, some (c.toNat * MAP_COL + keymapcol kbd)) := by
  unfold doIntrKeyboard
  rw [if_pos hc.1, if_pos hc.2]

/-- Only the codes of the shift keys change the queue. -/
theorem doIntrKeyboard_other (hm : ∀ s : Shift, c ≠ s.makeCode)
    (hb : ∀ s : Shift, c ≠ s.breakCode) : (doIntrKeyboard kbd c).1 = kbd := by
  have hbreak : ∀ c : Byte, c &&& 0x80 = BREAK → c &&& 0x7F = SHIFT_L ∨ c &&& 0x7F = SHIFT_R →
      c = Shift.left.breakCode ∨ c = Shift.right.breakCode := by decide
  have hleft : c ≠ SHIFT_L := hm .left
  have hright : c ≠ SHIFT_R := hm .right
  unfold doIntrKeyboard
  split_ifs with h1 h2 h3 h4 h5
  · rfl
  · rcases h3 with h3 | h3
    · exact absurd h3 hleft
    · exact absurd h3 hright
  · rfl
  · rcases hbreak c h4 h5 with e | e
    · exact absurd e (hb .left)
    · exact absurd e (hb .right)
  · rfl
  · rfl

theorem press_make : press held s.makeCode = Function.update held s true := by
  funext s'
  cases s <;> cases s' <;> rfl

theorem press_break : press held s.breakCode = Function.update held s false := by
  funext s'
  cases s <;> cases s' <;> rfl

theorem press_other (hm : ∀ s : Shift, c ≠ s.makeCode) (hb : ∀ s : Shift, c ≠ s.breakCode) :
    press held c = held := by
  funext s
  unfold press
  rw [if_neg (hm s), if_neg (hb s)]

/-- An ordinary key is none of the shift keys. -/
theorem Ordinary.other (hc : Ordinary c) :
    (∀ s : Shift, c ≠ s.makeCode) ∧ ∀ s : Shift, c ≠ s.breakCode := by
  obtain ⟨hmake, hl, hr⟩ := hc
  refine ⟨fun s => ?_, fun s hs => ?_⟩
  · cases s
    · exact hl
    · exact hr
  · subst hs
    cases s
    · exact absurd hmake (by decide)
    · exact absurd hmake (by decide)

/-! ## The queue as a counter -/

theorem Kbdqueue.enqueue_full (h : kbd.tail = KBD_BUF_SIZE) (code : Byte) :
    (kbd.enqueue code).2 = kbd := by
  unfold enqueue
  rw [dif_pos h]

theorem Kbdqueue.enqueue_count (h : kbd.tail ≠ KBD_BUF_SIZE) (code : Byte) :
    (kbd.enqueue code).2.count = kbd.count + 1 := by
  have := kbd.head_le
  unfold enqueue
  rw [dif_neg h]
  unfold count
  dsimp only
  omega

theorem Kbdqueue.Codes.enqueue (h : kbd.Codes) (s : Shift) :
    (kbd.enqueue s.makeCode).2.Codes := by
  unfold Kbdqueue.enqueue
  split_ifs with ht
  · exact h
  · intro i hlo hhi
    dsimp only at hlo hhi ⊢
    by_cases hi : i = kbd.tail
    · subst hi
      rw [Function.update_self]
      cases s
      · exact .inl rfl
      · exact .inr rfl
    · rw [Function.update_of_ne hi]
      exact h i hlo (by omega)

theorem Kbdqueue.dequeue_count : kbd.dequeue.count = kbd.count - 1 := by
  have := kbd.head_le
  unfold dequeue
  split_ifs with ht hh
  · unfold count
    omega
  · show 0 - 0 = kbd.tail - kbd.head - 1
    omega
  · unfold count
    dsimp only
    omega

theorem Kbdqueue.Codes.dequeue (h : kbd.Codes) : kbd.dequeue.Codes := by
  unfold Kbdqueue.dequeue
  split_ifs with ht hh
  · exact h
  · intro i _ hhi
    exact absurd hhi (Nat.not_lt_zero i)
  · intro i hlo hhi
    dsimp only at hlo hhi ⊢
    exact h i (by omega) hhi

/-- The queue says whether there is a code in it. -/
theorem Kbdqueue.Codes.keymapcol (h : kbd.Codes) :
    keymapcol kbd = if kbd.count = 0 then NO_SHIFT else WITH_SHIFT := by
  have hle := kbd.head_le
  unfold Keyboard.keymapcol
  by_cases he : kbd.tail = kbd.head
  · have hq : kbd.headqueue = 0 := if_pos he
    have hcount : kbd.count = 0 := Nat.sub_eq_zero_of_le he.le
    rw [hq, if_pos hcount, if_neg (by decide)]
  · have hq : kbd.headqueue = kbd.buf kbd.head := if_neg he
    have hcount : kbd.count ≠ 0 := by
      unfold count
      omega
    rw [hq, if_neg hcount, if_pos (h kbd.head le_rfl (by omega))]

/-- The number of shift keys that are held. -/
def heldCount (held : Keys) : Nat := (held .left).toNat + (held .right).toNat

theorem heldCount_eq_zero : heldCount held = 0 ↔ ¬ Held held := by
  unfold heldCount Held
  cases held .left <;> cases held .right <;> simp

theorem heldCount_hold (h : held s = false) :
    heldCount (Function.update held s true) = heldCount held + 1 := by
  unfold heldCount
  cases s <;> simp [h, Nat.add_comm]

theorem heldCount_release (h : held s = true) :
    heldCount (Function.update held s false) + 1 = heldCount held := by
  unfold heldCount
  cases s <;> simp [h, Nat.add_comm]

/-! ## The invariant -/

/-- The queue holds as many codes as shift keys are held. -/
structure Tracks (kbd : Kbdqueue) (held : Keys) : Prop where
  codes : kbd.Codes
  count : kbd.count = heldCount held

theorem Tracks.init (kbd : Kbdqueue) : Tracks (keyboardInit kbd) noKeys :=
  ⟨fun i _ hi => absurd hi (Nat.not_lt_zero i), rfl⟩

theorem Tracks.ordinary (h : Tracks kbd held) (hc : Ordinary c) : (doIntrKeyboard kbd c).2 =
    some (c.toNat * MAP_COL + if Held held then WITH_SHIFT else NO_SHIFT) := by
  rw [doIntrKeyboard_ordinary hc, h.codes.keymapcol, h.count]
  by_cases hh : Held held
  · rw [if_pos hh, if_neg fun e => heldCount_eq_zero.mp e hh]
  · rw [if_neg hh, if_pos (heldCount_eq_zero.mpr hh)]

/-- **One scan code** that the driver can follow. -/
theorem Tracks.step (h : Tracks kbd held) (hc : Regular kbd held c) :
    Tracks (doIntrKeyboard kbd c).1 (press held c) := by
  by_cases hm : ∃ s : Shift, c = s.makeCode
  · obtain ⟨s, rfl⟩ := hm
    have hfull := hc.1 s rfl
    rw [doIntrKeyboard_make, press_make]
    refine ⟨h.codes.enqueue s, ?_⟩
    dsimp only
    cases hs : held s with
    -- a repeated make code is lost in a full queue, a new one is appended
    | true =>
        rw [Kbdqueue.enqueue_full (hfull.mpr hs), Function.update_eq_self_iff.mpr hs.symm]
        exact h.count
    | false =>
        have hroom : kbd.tail ≠ KBD_BUF_SIZE := by
          intro e
          rw [hfull.mp e] at hs
          cases hs
        rw [Kbdqueue.enqueue_count hroom, heldCount_hold hs, h.count]
  · by_cases hb : ∃ s : Shift, c = s.breakCode
    · obtain ⟨s, rfl⟩ := hb
      rw [doIntrKeyboard_break, press_break]
      refine ⟨h.codes.dequeue, ?_⟩
      dsimp only
      rw [Kbdqueue.dequeue_count, h.count]
      cases hs : held s with
      -- the first code is dropped, which need not be the one of this key
      | true =>
          have := heldCount_release hs
          omega
      | false =>
          have hno := (hc.2 s rfl).resolve_left (by simp [hs])
          rw [Function.update_eq_self_iff.mpr hs.symm, heldCount_eq_zero.mpr hno]
    · have hm : ∀ s : Shift, c ≠ s.makeCode := fun s e => hm ⟨s, e⟩
      have hb : ∀ s : Shift, c ≠ s.breakCode := fun s e => hb ⟨s, e⟩
      rw [doIntrKeyboard_other hm hb, press_other hm hb]
      exact h

/-! ## Sequences of scan codes -/

/-- The queue after some scan codes. -/
def queueAfter (kbd : Kbdqueue) (codes : List Byte) : Kbdqueue :=
  codes.foldl (fun kbd c => (doIntrKeyboard kbd c).1) kbd

/-- The keys that are held after some scan codes. -/
def heldAfter (held : Keys) (codes : List Byte) : Keys := codes.foldl press held

/-- While keys are only released, the queue keeps track of them. -/
theorem Tracks.releases {codes : List Byte} (h : Tracks kbd held) (hr : Releases held codes) :
    AllRegular kbd held codes := by
  induction codes generalizing kbd held with
  | nil => trivial
  | cons c codes ih =>
      obtain ⟨hc, hrest⟩ := hr
      have hreg : Regular kbd held c := by
        rcases hc with hc | ⟨s, rfl, hs⟩
        · exact ⟨fun s e => absurd e (hc.other.1 s), fun s e => absurd e (hc.other.2 s)⟩
        · refine ⟨fun s' e => ?_, fun s' e => ?_⟩
          · cases s <;> cases s' <;> exact absurd e (by decide)
          · have hss : s = s' := by
              cases s <;> cases s' <;> first | rfl | exact absurd e (by decide)
            exact .inl (hss ▸ hs)
      exact ⟨hreg, ih (h.step hreg) hrest⟩

/-- **Scan codes** that the driver can follow. -/
theorem Tracks.shiftWorks {codes : List Byte} (h : Tracks kbd held)
    (hc : AllRegular kbd held codes) : ShiftWorks kbd held codes := by
  induction codes generalizing kbd held with
  | nil => trivial
  | cons c codes ih => exact ⟨h.ordinary, ih (h.step hc.1) hc.2⟩

/-! ## Scan codes that the driver cannot follow -/

/-- The queue holds one code too many or one too few. -/
structure Off (kbd : Kbdqueue) (held : Keys) : Prop where
  codes : kbd.Codes
  count : kbd.count = heldCount held + 1 ∨ kbd.count + 1 = heldCount held

theorem Tracks.off (h : Tracks kbd held) (hc : ¬ Regular kbd held c) :
    Off (doIntrKeyboard kbd c).1 (press held c) := by
  have hcases : (∃ s : Shift, c = s.makeCode ∧ ¬ (kbd.tail = KBD_BUF_SIZE ↔ held s = true)) ∨
      ∃ s : Shift, c = s.breakCode ∧ held s = false ∧ Held held := by
    by_contra hno
    refine hc ⟨fun s e => ?_, fun s e => ?_⟩
    · by_contra hiff
      exact hno (.inl ⟨s, e, hiff⟩)
    · by_contra hor
      rw [not_or, not_not, Bool.not_eq_true] at hor
      exact hno (.inr ⟨s, e, hor⟩)
  rcases hcases with ⟨s, rfl, hiff⟩ | ⟨s, rfl, hs, hheld⟩
  · rw [doIntrKeyboard_make, press_make]
    refine ⟨h.codes.enqueue s, ?_⟩
    dsimp only
    cases hs : held s with
    | true =>
        -- the key repeats, and its code is appended again
        have hroom : kbd.tail ≠ KBD_BUF_SIZE := fun e => hiff (iff_of_true e hs)
        rw [Kbdqueue.enqueue_count hroom, Function.update_eq_self_iff.mpr hs.symm, h.count]
        exact .inl rfl
    | false =>
        -- the queue takes no more
        have hfull : kbd.tail = KBD_BUF_SIZE := by
          by_contra hne
          exact hiff (iff_of_false hne (by simp [hs]))
        rw [Kbdqueue.enqueue_full hfull, heldCount_hold hs, h.count]
        exact .inr rfl
  · -- the code of the other key is dropped
    rw [doIntrKeyboard_break, press_break, Function.update_eq_self_iff.mpr hs.symm]
    refine ⟨h.codes.dequeue, .inr ?_⟩
    dsimp only
    have hpos := mt heldCount_eq_zero.mp (not_not.mpr hheld)
    rw [Kbdqueue.dequeue_count, h.count]
    omega

/-- The make code of the key `a`. -/
def keyA : Byte := 0x1E

/-- A wrong column at once. -/
theorem not_shiftWorks (h : kbd.Codes) (hc : kbd.count = 0 ↔ Held held) :
    ¬ ShiftWorks kbd held [keyA] := by
  rintro ⟨hcol, -⟩
  have hcol := hcol (by decide)
  rw [doIntrKeyboard_ordinary (by decide), h.keymapcol] at hcol
  by_cases hh : Held held
  · rw [if_pos hh, if_pos (hc.mpr hh)] at hcol
    exact absurd (Option.some.inj hcol) (by decide)
  · rw [if_neg hh, if_neg fun e => hh (hc.mp e)] at hcol
    exact absurd (Option.some.inj hcol) (by decide)

/-- Once it is off, the driver goes wrong while the keys are released. -/
theorem Off.wrong (h : Off kbd held) :
    ∃ codes, Releases held codes ∧ ¬ ShiftWorks kbd held codes := by
  have hA : Ordinary keyA := by decide
  -- by induction on the number of keys that are held
  generalize hn : heldCount held = n
  induction n generalizing kbd held with
  | zero =>
      have hno := heldCount_eq_zero.mp hn
      have hcount := h.count
      refine ⟨[keyA], ⟨.inl hA, trivial⟩, not_shiftWorks h.codes (iff_of_false ?_ hno)⟩
      omega
  | succ n ih =>
      have hheld : Held held := by
        by_contra hno
        have := heldCount_eq_zero.mpr hno
        omega
      have hcount := h.count
      by_cases hzero : kbd.count = 0
      -- wrong at once, or one key is released
      · exact ⟨[keyA], ⟨.inl hA, trivial⟩, not_shiftWorks h.codes (iff_of_true hzero hheld)⟩
      · obtain ⟨s, hs⟩ : ∃ s, held s = true := hheld.elim (fun e => ⟨_, e⟩) fun e => ⟨_, e⟩
        have hrel := heldCount_release hs
        have hoff : Off (doIntrKeyboard kbd s.breakCode).1 (press held s.breakCode) := by
          rw [doIntrKeyboard_break, press_break]
          refine ⟨h.codes.dequeue, ?_⟩
          dsimp only
          rw [Kbdqueue.dequeue_count]
          omega
        obtain ⟨codes, hr, hw⟩ := ih hoff (by rw [press_break]; omega)
        exact ⟨s.breakCode :: codes, ⟨.inr ⟨s, rfl, hs⟩, hr⟩, fun hsw => hw hsw.2⟩

/-- The scan codes are regular exactly if shift works after each of them, and while the keys are
then released. -/
theorem Tracks.allRegular_iff {codes : List Byte} (h : Tracks kbd held) :
    AllRegular kbd held codes ↔ ∀ p, p <+: codes → ∀ codes', Releases (heldAfter held p) codes' →
      ShiftWorks kbd held (p ++ codes') := by
  induction codes generalizing kbd held with
  | nil =>
      refine iff_of_true trivial fun p hp codes' hr => ?_
      rw [List.prefix_nil.mp hp] at hr ⊢
      exact h.shiftWorks (h.releases hr)
  | cons c codes ih =>
      constructor
      · rintro ⟨hc, hrest⟩ p hp codes' hr
        rcases List.prefix_cons_iff.mp hp with rfl | ⟨q, rfl, hq⟩
        · exact h.shiftWorks (h.releases hr)
        · exact ⟨h.ordinary, (ih (h.step hc)).mp hrest q hq codes' hr⟩
      · intro hall
        have hc : Regular kbd held c := by
          by_contra hc
          obtain ⟨codes', hr, hw⟩ := (h.off hc).wrong
          exact hw (hall [c] (List.prefix_append [c] codes) codes' hr).2
        refine ⟨hc, (ih (h.step hc)).mpr fun p hp codes' hr => ?_⟩
        exact (hall (c :: p) (List.cons_prefix_cons.mpr ⟨rfl, hp⟩) codes' hr).2

end

/-- **Shift works** for every sequence of scan codes that the driver can follow. No others are safe:
after a code that it cannot follow the driver goes wrong at the latest while the keys are
released. -/
theorem shift_works (kbd : Kbdqueue) (codes : List Byte) :
    (AllRegular (keyboardInit kbd) noKeys codes → ShiftWorks (keyboardInit kbd) noKeys codes) ∧
    (AllRegular (keyboardInit kbd) noKeys codes ↔ ∀ p, p <+: codes → ∀ codes',
      Releases (heldAfter noKeys p) codes' → ShiftWorks (keyboardInit kbd) noKeys (p ++ codes')) :=
  ⟨(Tracks.init kbd).shiftWorks, (Tracks.init kbd).allRegular_iff⟩

/-- The queue as the linker leaves it. -/
def emptyQueue : Kbdqueue := ⟨fun _ => 0, 0, 0, le_rfl, Nat.zero_le _⟩

/-- `Aa`, with the left shift key, and then `A` with the right one. -/
theorem shift_works_pairs : ShiftWorks (keyboardInit emptyQueue) noKeys
    [SHIFT_L, keyA, SHIFT_L ||| BREAK, keyA, SHIFT_R, keyA, SHIFT_R ||| BREAK] :=
  (shift_works emptyQueue _).1 (by decide)

/-- The left shift key is held until its make code repeats, and released: `a` is printed as `A`. -/
theorem shift_sticks :
    ¬ ShiftWorks (keyboardInit emptyQueue) noKeys [SHIFT_L, SHIFT_L, SHIFT_L ||| BREAK, keyA] ∧
    ¬ Held (heldAfter noKeys [SHIFT_L, SHIFT_L, SHIFT_L ||| BREAK]) ∧
    (doIntrKeyboard (queueAfter (keyboardInit emptyQueue) [SHIFT_L, SHIFT_L, SHIFT_L ||| BREAK])
      keyA).2.bind (fun i => keymap[i]?) = some 'A' := by
  refine ⟨?_, by decide, by decide⟩
  rintro ⟨-, -, -, hcol, -⟩
  exact absurd (hcol (by decide)) (by decide)

end Mks.Keyboard
