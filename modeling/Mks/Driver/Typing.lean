import Mks.Lib.Trail
import Mks.Driver.Tables
import Mks.Console.Visible

set_option autoImplicit false

/-! # From the keys to the screen

`do_intr_keyboard` prints the characters of the keys with `printchar`, which does not scroll: after
the last cell of the screen it goes on in the second row, over what is there. The last 1920
characters that were typed are on the screen, and the title is never typed over
(`typing_visible`).
-/

namespace Mks.Keyboard

open Console (State chr ORIG attr videoNumColumns printchar OnScreen)

/-- `do_intr_keyboard` with what it prints. It has no result where it would read past the end of
`keymap`. -/
def intrKeyboard (scanCode : Byte) (k : Kbdqueue × State) : Option (Kbdqueue × State) :=
  match doIntrKeyboard k.1 scanCode with
  | (kbd, none) => some (kbd, k.2)
  | (kbd, some i) => keymap[i]?.map fun ch => (kbd, printchar (BitVec.ofNat 8 ch.toNat) k.2)

/-- The interrupts of some scan codes. -/
def interrupts (codes : List Byte) (k : Kbdqueue × State) : Option (Kbdqueue × State) :=
  codes.foldlM (fun k scanCode => intrKeyboard scanCode k) k

/-- The character of a key, without and with shift. -/
def keyChar (c : Byte) (col : Nat) : Byte :=
  BitVec.ofNat 8 ((keymap[c.toNat * MAP_COL + col]?).getD '\x00').toNat

/-- The characters that a user means by some scan codes. -/
def typed : Keys → List Byte → List Byte
  | _, [] => []
  | held, c :: codes =>
    (if Ordinary c then [keyChar c (if Held held then WITH_SHIFT else NO_SHIFT)] else []) ++
      typed (press held c) codes

instance : DecidablePred NoEntry := fun _ => inferInstanceAs (Decidable (_ ∧ _))

/-! ## The cells -/

/-- Where `printchar` goes from a cell. -/
def nextCell (k : Nat) : Nat := if k = 1999 then 80 else k + 1

/-- The cell of the character `i`, when the first one is in cell `p`. -/
def typedCell (p i : Nat) : Nat := if p + i < 2000 then p + i else 80 + (p + i - 2000) % 1920

theorem nextCell_iterate {p : Nat} (hp : p < 2000) (i : Nat) :
    nextCell^[i] p = typedCell p i := by
  induction i with
  | zero => exact (if_pos hp).symm
  | succ i ih =>
      rw [Function.iterate_succ_apply', ih]
      simp only [nextCell, typedCell]
      split_ifs <;> omega

/-- A cell comes again after 1920 characters at the earliest. -/
theorem typedCell_ne {p i j : Nat} (hij : i < j) (hj : j < i + 1920) :
    typedCell p j ≠ typedCell p i := by
  simp only [typedCell]
  split_ifs <;> omega

theorem le_typedCell {p i : Nat} (hp : 80 ≤ p) : 80 ≤ typedCell p i := by
  simp only [typedCell]
  split_ifs <;> omega

/-! ## One character -/

theorem printchar_cell (c : Byte) {s : State} (h : OnScreen s) :
    (printchar c s).cell = nextCell s.cell := by
  obtain ⟨hx, hy⟩ := h
  simp only [printchar, State.put, State.cell, videoNumColumns, nextCell]
  split_ifs <;> grind

theorem chr_printchar (c : Byte) (s : State) :
    chr (printchar c s) = Function.update (chr s) s.cell c := by
  have hpos : ORIG + (videoNumColumns * s.y + s.x) * 2 = ORIG + 2 * s.cell := by
    rw [State.cell]
    ring
  have hmem : (printchar c s).mem =
      ((s.put (ORIG + 2 * s.cell) c).put (ORIG + 2 * s.cell + 1) attr).mem := by
    rw [printchar, hpos]
    split_ifs <;> rfl
  funext k
  rw [chr, hmem]
  simp only [State.put]
  rw [Function.update_of_ne (by omega)]
  by_cases hk : k = s.cell
  · rw [hk, Function.update_self, Function.update_self]
  · rw [Function.update_of_ne hk, Function.update_of_ne (by omega), chr]

/-! ## Sequences of scan codes -/

variable {kbd : Kbdqueue} {held : Keys} {s : State} {c : Byte} {codes : List Byte}

/-- An ordinary key that is in `keymap` prints its character. -/
theorem Tracks.intrKeyboard_ordinary (h : Tracks kbd held) (hc : Ordinary c) (hk : ¬ NoEntry c) :
    intrKeyboard c (kbd, s) =
      some (kbd, printchar (keyChar c (if Held held then WITH_SHIFT else NO_SHIFT)) s) := by
  have hread := ((staysInTables_iff kbd c).mpr hk).keymap
  have hcol := h.ordinary hc
  have hkbd : (doIntrKeyboard kbd c).1 = kbd := by rw [doIntrKeyboard_ordinary hc]
  rw [keymapAccesses, hcol] at hread
  have hlt := hread _ (List.mem_singleton.mpr rfl)
  have hpair : doIntrKeyboard kbd c =
      (kbd, some (c.toNat * MAP_COL + if Held held then WITH_SHIFT else NO_SHIFT)) :=
    Prod.ext hkbd hcol
  simp only [intrKeyboard, hpair, keyChar, List.getElem?_eq_getElem hlt, Option.map_some,
    Option.getD_some]

theorem intrKeyboard_not_ordinary (hc : ¬ Ordinary c) :
    intrKeyboard c (kbd, s) = some ((doIntrKeyboard kbd c).1, s) := by
  have hnone : (doIntrKeyboard kbd c).2 = none := by
    have h := keymapAccesses_of_not_ordinary kbd hc
    rw [keymapAccesses] at h
    exact Option.toList_eq_nil_iff.mp h
  have hpair : doIntrKeyboard kbd c = ((doIntrKeyboard kbd c).1, none) := Prod.ext rfl hnone
  rw [intrKeyboard, hpair]

/-- **The characters are written along the cells.** -/
theorem Tracks.interrupts (h : Tracks kbd held) (hcodes : AllRegular kbd held codes)
    (hkeys : ∀ c ∈ codes, ¬ NoEntry c) (hs : OnScreen s) :
    ∃ kbd' s', interrupts codes (kbd, s) = some (kbd', s') ∧ Tracks kbd' (heldAfter held codes) ∧
      OnScreen s' ∧ s'.cell = nextCell^[(typed held codes).length] s.cell ∧
      chr s' = Trail.writes nextCell (typed held codes) s.cell (chr s) := by
  induction codes generalizing kbd held s with
  | nil => exact ⟨kbd, s, rfl, h, hs, rfl, rfl⟩
  | cons c codes ih =>
      obtain ⟨hreg, hrest⟩ := hcodes
      have hkeys' := fun c' hc' => hkeys c' (List.mem_cons_of_mem c hc')
      by_cases hc : Ordinary c
      · have hone := h.intrKeyboard_ordinary (s := s) hc (hkeys c List.mem_cons_self)
        have hon := (Console.printchar_good
          (keyChar c (if Held held then WITH_SHIFT else NO_SHIFT)) hs).2
        have hkbd : (doIntrKeyboard kbd c).1 = kbd := by rw [doIntrKeyboard_ordinary hc]
        have hstep := h.step hreg
        rw [hkbd] at hstep hrest
        obtain ⟨kbd', s', hrun, htr, hs', hcell, hchr⟩ := ih hstep hrest hkeys' hon
        refine ⟨kbd', s', ?_, htr, hs', ?_, ?_⟩
        · rw [Keyboard.interrupts, List.foldlM_cons, hone]
          exact hrun
        · rw [hcell, typed, if_pos hc, printchar_cell _ hs]
          rfl
        · rw [hchr, typed, if_pos hc, chr_printchar, printchar_cell _ hs]
          rfl
      · obtain ⟨kbd', s', hrun, htr, hs', hcell, hchr⟩ := ih (h.step hreg) hrest hkeys' hs
        refine ⟨kbd', s', ?_, htr, hs', ?_, ?_⟩
        · rw [Keyboard.interrupts, List.foldlM_cons, intrKeyboard_not_ordinary hc]
          exact hrun
        · rw [hcell, typed, if_neg hc, List.nil_append]
        · rw [hchr, typed, if_neg hc, List.nil_append]

/-- **What is typed is seen.** While the driver can follow the shift keys and the keys are in
`keymap`, the last 1920 characters that the user means are on the screen, one after the other from
the cursor on and then again from the second row on, and if the cursor was not in the first row, that
row is as it was. -/
theorem typing_visible (kbd : Kbdqueue) (s : State) (hx : s.x < 80) (hy : s.y < 25)
    (codes : List Byte) (hcodes : AllRegular (keyboardInit kbd) noKeys codes)
    (hkeys : ∀ c ∈ codes, ¬ NoEntry c) :
    ∃ kbd' s', interrupts codes (keyboardInit kbd, s) = some (kbd', s') ∧
      s'.cell = typedCell s.cell (typed noKeys codes).length ∧
      (∀ i (hi : i < (typed noKeys codes).length), (typed noKeys codes).length ≤ i + 1920 →
        chr s' (typedCell s.cell i) = (typed noKeys codes)[i]) ∧
      ∀ k, (∀ i < (typed noKeys codes).length, typedCell s.cell i ≠ k) ∨ 1 ≤ s.y ∧ k < 80 →
        chr s' k = chr s k := by
  obtain ⟨kbd', s', hrun, -, -, hcell, hchr⟩ :=
    (Tracks.init kbd).interrupts hcodes hkeys ⟨hx, hy⟩
  have hp : s.cell < 2000 := (Console.cell_lt_iff hx).mpr hy
  refine ⟨kbd', s', hrun, by rw [hcell, nextCell_iterate hp], fun i hi hlast => ?_, fun k hk => ?_⟩
  · rw [hchr, ← nextCell_iterate hp]
    refine Trail.writes_last hi fun j hij hj => ?_
    rw [nextCell_iterate hp, nextCell_iterate hp]
    exact typedCell_ne hij (by omega)
  · rw [hchr]
    refine Trail.writes_unvisited fun j hj => ?_
    rw [nextCell_iterate hp]
    rcases hk with hk | ⟨hrow, hk⟩
    · exact hk j hj
    · have hcell : 80 ≤ s.cell := by
        rw [State.cell, videoNumColumns]
        omega
      exact fun e => absurd (le_typedCell (i := j) hcell) (by omega)

/-- `Aa`, in the last cell of the screen and under the title. -/
theorem typing_visible_pair : ∃ kbd' s',
    interrupts [SHIFT_L, keyA, SHIFT_L ||| BREAK, keyA]
      (keyboardInit emptyQueue, Console.cursorAt 79 24) = some (kbd', s') ∧
    chr s' 1999 = 65 ∧ chr s' 80 = 97 := by
  obtain ⟨kbd', s', hrun, -, hchr, -⟩ := typing_visible emptyQueue (Console.cursorAt 79 24)
    (by decide) (by decide) [SHIFT_L, keyA, SHIFT_L ||| BREAK, keyA] (by decide) (by decide)
  exact ⟨kbd', s', hrun, hchr 0 (by decide) (by decide), hchr 1 (by decide) (by decide)⟩

end Mks.Keyboard
