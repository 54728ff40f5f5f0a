import Mks.Console.Cursor

set_option autoImplicit false

/-! # Where a printed message is on the screen

The characters of the screen are numbered row by row (`chr`). A message that is printed above the
bottom stands at the cursor. When `write_char` leaves the bottom it clears the whole screen, and
the row that was just written with it: of a message that starts in the last row and reaches its end,
only what comes after that is seen (`printk_visible`).
-/

namespace Mks.Console

/-- The character in cell `k`. -/
def chr (s : State) (k : Nat) : Byte := s.mem (ORIG + 2 * k)

theorem chr_advance (ch : Byte) (s : State) (k : Nat) :
    chr (advance ch s) k = if k = s.cell then ch else chr s k := by
  have hpos : ORIG + videoNumColumns * 2 * s.y + s.x * 2 = ORIG + 2 * s.cell := by
    rw [State.cell, videoNumColumns]
    ring
  have hmem : (advance ch s).mem =
      ((s.put (ORIG + 2 * s.cell) ch).put (ORIG + 2 * s.cell + 1) attr).mem := by
    rw [advance, hpos]
    split_ifs <;> rfl
  rw [chr, hmem]
  simp only [State.put, chr]
  rw [Function.update_of_ne (by omega)]
  split_ifs with h
  · rw [h, Function.update_self]
  · rw [Function.update_of_ne (by omega)]

theorem chr_clear (i j : Nat) (s : State) (k : Nat) :
    chr (clear (ORIG + 2 * i) (ORIG + 2 * j) s) k = if i ≤ k ∧ k < j then 32 else chr s k := by
  rcases Nat.lt_or_ge i j with hij | hij
  · have hm := clear_mem (ORIG + 2 * i) (j - i) s (ORIG + 2 * k)
    rw [show ORIG + 2 * i + 2 * (j - i) = ORIG + 2 * j by omega] at hm
    rw [chr, hm, chr]
    split_ifs <;> first | rfl | omega
  · rw [clear, if_neg (by omega), if_neg (by omega)]

theorem chr_advances (l : List Byte) {s : State} (hx : s.x < 80) (k : Nat) :
    chr (advances l s) k =
      if s.cell ≤ k then l[k - s.cell]?.getD (chr s k) else chr s k := by
  induction l generalizing s with
  | nil => simp [advances]
  | cons ch l ih =>
    have hc := advance_cell ch hx
    have hl := ih hc.2
    rw [hc.1, chr_advance] at hl
    change chr (advances l (advance ch s)) k = _
    rw [hl]
    rcases lt_trichotomy k s.cell with hk | hk | hk
    · rw [if_neg (by omega), if_neg (by omega), if_neg (by omega)]
    · rw [if_neg (by omega), if_pos hk, if_pos (by omega), hk]
      simp
    · rw [if_pos (by omega), if_neg (by omega), if_pos (by omega),
        show k - s.cell = k - (s.cell + 1) + 1 by omega, List.getElem?_cons_succ]

/-- `println` above the last row clears from the cursor to the end of the next row. -/
theorem chr_println {s : State} (hy : s.y < 24) (k : Nat) :
    chr (println s) k = if s.cell ≤ k ∧ k < 80 * (s.y + 2) then 32 else chr s k := by
  have hph : ORIG + videoNumColumns * 2 * s.y + s.x * 2 = ORIG + 2 * s.cell := by
    rw [State.cell, videoNumColumns]
    ring
  have hpe : ORIG + videoNumColumns * 2 * (s.y + 1 + 1) = ORIG + 2 * (80 * (s.y + 2)) := by
    rw [videoNumColumns]
    ring
  rw [println, hph]
  simp only [hpe]
  rw [if_pos (by omega), chr_clear]
  rfl

/-- `println` in the last row clears the first row and the rest of the last. -/
theorem chr_println_last {s : State} (hy : s.y = 24) (k : Nat) :
    chr (println s) k =
      if k < 80 ∨ s.cell ≤ k ∧ k < 2000 then 32 else chr s k := by
  have hph : ORIG + videoNumColumns * 2 * s.y + s.x * 2 = ORIG + 2 * s.cell := by
    rw [State.cell, videoNumColumns]
    ring
  have hrow (s : State) : clear ORIG (ORIG + videoNumColumns * 2) s =
      clear (ORIG + 2 * 0) (ORIG + 2 * 80) s := rfl
  have hpe : ORIG + videoNumColumns * 2 * (24 + 1) = ORIG + 2 * 2000 := rfl
  rw [println, hph]
  simp only [hrow, clear_y, hy]
  rw [if_neg (by decide), hpe, chr_clear]
  change (if _ then 32 else
    chr (clear (ORIG + 2 * 0) (ORIG + 2 * 80) { s with x := 0, y := 24 + 1 }) k) = _
  rw [chr_clear]
  change (if _ then 32 else if _ then 32 else chr s k) = _
  grind

/-! ## The two ways of a message -/

theorem emits_append (l l' : List Byte) (s : State) :
    emits (l ++ l') s = emits l' (emits l s) := by
  rw [emits, List.foldl_append]
  rfl

/-- A message that ends above the bottom is written from the cursor on. -/
theorem emits_above (l : List Byte) {s : State} (hx : s.x < 80) (h : s.cell + l.length < 2000) :
    emits l s = advances l s := by
  induction l generalizing s with
  | nil => rfl
  | cons ch l ih =>
    have hc := advance_cell ch hx
    rw [List.length_cons] at h
    have hy : (advance ch s).y < 25 := (cell_lt_iff hc.2).mp (by omega)
    have hch : emit ch s = advance ch s := if_neg (by omega)
    change emits l (emit ch s) = advances l (advance ch s)
    rw [hch]
    exact ih hc.2 (by omega)

/-- What `write_char` goes on with when the cursor has left the bottom. -/
def wrapped (s : State) : State := { titled s with y := (titled s).y % 25 }

/-- A message that ends in the last cell. -/
theorem emits_bottom (l : List Byte) (ch : Byte) {s : State} (hx : s.x < 80)
    (h : s.cell + l.length + 1 = 2000) :
    emits (l ++ [ch]) s = wrapped (advances (l ++ [ch]) s) := by
  have hl := advances_cell l hx
  have hc := advance_cell ch hl.2
  have hy : ¬ (advance ch (advances l s)).y < 25 := by
    rw [← cell_lt_iff hc.2]
    omega
  have hadv : advances (l ++ [ch]) s = advance ch (advances l s) := by
    rw [advances, List.foldl_append]
    rfl
  rw [emits_append, emits_above l hx (by omega), hadv]
  exact if_pos (by omega)

theorem println_x (s : State) : (println s).x = 0 := by
  simp only [println]
  split_ifs <;> simp

theorem println_y {s : State} (h : s.y < 24) : (println s).y = s.y + 1 := by
  simp only [println]
  rw [if_pos (by omega), clear_y]

theorem titleRow_y (s : State) : (titleRow s).y = 0 := by
  have h := titleRow_cell s
  rw [State.cell, videoNumColumns] at h
  omega

theorem chr_titleRow (s : State) {k : Nat} (h : 66 ≤ k) (hk : k < 2000) :
    chr (titleRow s) k = 32 := by
  have hclear : chr (clear ORIG (ORIG + 4000) { s with x := 0, y := 0 }) k = 32 := by
    have hc := chr_clear 0 2000 { s with x := 0, y := 0 } k
    rw [if_pos ⟨by omega, hk⟩] at hc
    simpa using hc
  rw [titleRow, chr_advances title (by simp), hclear, List.getElem?_eq_none, Option.getD_none]
  · exact ite_self _
  · simp [title_length, State.cell]
    omega

@[simp] theorem updateCursor_x (s : State) : (updateCursor s).x = s.x := rfl

@[simp] theorem updateCursor_y (s : State) : (updateCursor s).y = s.y := rfl

@[simp] theorem updateCursor_mem (s : State) : (updateCursor s).mem = s.mem := rfl

theorem wrapped_x (s : State) : (wrapped s).x = (println (titleRow s)).x := by
  simp only [wrapped, titled, updateCursor_x]

theorem titled_y (s : State) : (titled s).y = (println (titleRow s)).y := by
  rw [titled, updateCursor_y]

theorem wrapped_y (s : State) : (wrapped s).y = (titled s).y % 25 := by
  rw [wrapped]

theorem chr_wrapped (s : State) (k : Nat) : chr (wrapped s) k = chr (println (titleRow s)) k := by
  simp only [chr, wrapped, titled, updateCursor_mem]

/-- The writer goes on in the row under the title. -/
theorem wrapped_cell (s : State) : (wrapped s).cell = 80 ∧ (wrapped s).x < 80 := by
  have hy := titleRow_y s
  rw [State.cell, wrapped_x, wrapped_y, titled_y, println_x, println_y (by omega), hy,
    videoNumColumns]
  decide

/-- There is nothing on the screen then but the title. -/
theorem chr_wrapped_below (s : State) {k : Nat} (h : 80 ≤ k) (hk : k < 2000) :
    chr (wrapped s) k = 32 := by
  have hy := titleRow_y s
  rw [chr_wrapped, chr_println (by omega), chr_titleRow s (by omega) hk]
  exact ite_self _

/-! ## The message -/

/-- The cell for the character `i` of a message that starts at `p`: the cells follow each other, and
the row under the title follows the last cell. -/
def messageCell (p i : Nat) : Nat := if p + i < 2000 then p + i else 80 + (p + i - 2000)

/-- What stands on the screen when a message has been written above the bottom. -/
theorem printk_above (l : List Byte) {s : State} (hx : s.x < 80) (hl : l.length ≤ 80)
    (h : s.cell + l.length < 2000) (i : Nat) (hi : i < l.length) :
    chr (println (emits l s)) (s.cell + i) = l[i] := by
  have hc := advances_cell l hx
  have hchr : chr (advances l s) (s.cell + i) = l[i] := by
    rw [chr_advances l hx, if_pos (by omega), Nat.add_sub_cancel_left,
      List.getElem?_eq_getElem hi, Option.getD_some]
  have hy := (cell_lt_iff hc.2).mp (by omega)
  rw [emits_above l hx h]
  -- `println` clears from the end of the message on, and in the last row the first row too
  by_cases h24 : (advances l s).y = 24
  · have hcell := hc.1
    rw [State.cell, videoNumColumns] at hcell
    rw [chr_println_last h24, if_neg (by omega), hchr]
  · rw [chr_println (by omega), if_neg (by omega), hchr]

/-- What stands on the screen when a message has reached the bottom: nothing of the last row, and
the rest under the title. -/
theorem printk_bottom (l : List Byte) {s : State} (hx : s.x < 80) (hy : s.y < 25)
    (hl : l.length ≤ 80) (h : 2000 ≤ s.cell + l.length) (i : Nat) (hi : i < l.length) :
    chr (println (emits l s)) (messageCell s.cell i) =
      if s.cell + i < 2000 then 32 else l[i] := by
  have hs := (cell_lt_iff hx).mpr hy
  -- the characters up to the last cell, and the others
  obtain ⟨m, hm⟩ : ∃ m, s.cell + m + 1 = 2000 := ⟨1999 - s.cell, by omega⟩
  have hsplit : l = l.take m ++ [l[m]] ++ l.drop (m + 1) := by
    rw [List.take_append_getElem, List.take_append_drop]
  have hlen : (l.take m).length = m := by
    rw [List.length_take]
    omega
  have hfirst := emits_bottom (l.take m) l[m] hx (by rw [hlen]; exact hm)
  generalize hw : advances (l.take m ++ [l[m]]) s = t at hfirst
  have hwc := wrapped_cell t
  have hrest : (l.drop (m + 1)).length = l.length - (m + 1) := List.length_drop
  have hemits : emits l s = advances (l.drop (m + 1)) (wrapped t) := by
    conv_lhs => rw [hsplit]
    rw [emits_append, hfirst]
    exact emits_above _ hwc.2 (by omega)
  have hend := advances_cell (l.drop (m + 1)) hwc.2
  have hcell := hend.1
  rw [State.cell, videoNumColumns] at hcell
  rw [hemits, chr_println (by omega), chr_advances _ hwc.2, hwc.1, messageCell]
  by_cases hlast : s.cell + i < 2000
  · rw [if_pos hlast, if_pos hlast, if_neg (by omega), if_pos (by omega),
      List.getElem?_eq_none (by omega), Option.getD_none]
    exact chr_wrapped_below t (by omega) hlast
  · rw [if_neg hlast, if_neg hlast, if_neg (by omega), if_pos (by omega), List.getElem?_drop,
      show m + 1 + (80 + (s.cell + i - 2000) - 80) = i by omega, List.getElem?_eq_getElem hi,
      Option.getD_some]

/-- A message of at most a row is on the screen after `printk` if and only if it does not start in
the last row, or does not reach the end of that row, or is blank up to there. -/
theorem printk_visible (l : List Byte) (s : State) (hx : s.x < 80) (hy : s.y < 25)
    (hl : l.length ≤ 80) (fuel : Nat) :
    ∃ s', printk (conInit (fuel + 1)) l s = some (l.length, s') ∧
      ((∀ i (hi : i < l.length), chr s' (messageCell s.cell i) = l[i]) ↔
        s.y ≠ 24 ∨ s.x + l.length < 80 ∨
          ∀ i (hi : i < l.length), s.x + i < 80 → l[i] = 32) := by
  refine ⟨_, printk_eq fuel l s, ?_⟩
  have hcell : s.cell = 80 * s.y + s.x := rfl
  rcases Nat.lt_or_ge (s.cell + l.length) 2000 with h | h
  · have hvis (i : Nat) (hi : i < l.length) :
        chr (println (emits l s)) (messageCell s.cell i) = l[i] := by
      rw [messageCell, if_pos (by omega)]
      exact printk_above l hx hl h i hi
    constructor
    · intro _
      omega
    · intro _
      exact hvis
  · have hbot := printk_bottom l hx hy hl h
    have h24 : s.y = 24 := by omega
    constructor
    · intro hvis
      refine .inr (.inr fun i hi hrow => ?_)
      rw [← hvis i hi, hbot i hi, if_pos (by omega)]
    · rintro (hn | hn | hblank) i hi
      · exact absurd h24 hn
      · omega
      · rw [hbot i hi]
        split_ifs with hrow
        · exact (hblank i hi (by omega)).symm
        · rfl

/-- An empty screen with the cursor in column `x` of row `y`. -/
def cursorAt (x y : Nat) : State :=
  { mem := fun _ => 32, x := x, y := y, writes := [], ports := [] }

theorem printk_visible_above :
    ∃ s', printk (conInit 1) [72, 105] (cursorAt 79 23) = some (2, s') ∧
      ∀ i (hi : i < 2), chr s' (messageCell (cursorAt 79 23).cell i) = [72, 105][i] := by
  obtain ⟨s', hs', hvis⟩ := printk_visible [72, 105] (cursorAt 79 23) (by decide) (by decide)
    (by decide) 0
  exact ⟨s', hs', hvis.mpr (.inl (by decide))⟩

/-- One character in the last cell of the screen is gone when `printk` returns. -/
theorem printk_last_cell :
    ∃ s', printk (conInit 1) [65] (cursorAt 79 24) = some (1, s') ∧
      chr s' (messageCell (cursorAt 79 24).cell 0) ≠ 65 := by
  refine ⟨_, printk_eq 0 [65] (cursorAt 79 24), ?_⟩
  rw [printk_bottom [65] (by decide) (by decide) (by decide) (by decide) 0 (by decide)]
  decide

end Mks.Console
