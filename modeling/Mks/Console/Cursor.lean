import Mks.Console.Numbers

set_option autoImplicit false

/-! # The cursor stays on the screen

The title is shorter than a row, so `con_init` does not come to itself again: with one level of
nesting every function returns (`conInit_succ`), and what it does is a total function of the state
(`Call.effect`). Each of these keeps the cursor on the screen and writes video memory only.
-/

namespace Mks.Console

/-! ## What `clear` and `advance` do -/

@[simp] theorem clear_x (ph pe : Nat) (s : State) : (clear ph pe s).x = s.x := by
  induction ph, s using clear.induct pe with
  | case1 ph s h ih => rw [clear, if_pos h, ih]; rfl
  | case2 ph s h => rw [clear, if_neg h]

@[simp] theorem clear_y (ph pe : Nat) (s : State) : (clear ph pe s).y = s.y := by
  induction ph, s using clear.induct pe with
  | case1 ph s h ih => rw [clear, if_pos h, ih]; rfl
  | case2 ph s h => rw [clear, if_neg h]

/-- `clear` over `n` cells writes these, each once. -/
theorem clear_writes (ph n : Nat) (s : State) :
    (clear ph (ph + 2 * n) s).writes = s.writes ++ List.range' ph (2 * n) := by
  induction n generalizing ph s with
  | zero =>
    rw [clear, if_neg (by omega)]
    exact (List.append_nil _).symm
  | succ n ih =>
    have hw : List.range' ph (2 * (n + 1)) = ph :: (ph + 1) :: List.range' (ph + 2) (2 * n) := by
      rw [show 2 * (n + 1) = 2 * n + 1 + 1 by omega, List.range'_succ, List.range'_succ]
    rw [clear, if_pos (by omega), show ph + 2 * (n + 1) = ph + 2 + 2 * n by omega, ih, hw]
    simp [State.put]

theorem clear_mem (ph n : Nat) (s : State) (a : Nat) :
    (clear ph (ph + 2 * n) s).mem a =
      if ph ≤ a ∧ a < ph + 2 * n then if (a - ph) % 2 = 0 then 32 else attr else s.mem a := by
  induction n generalizing ph s with
  | zero => rw [clear, if_neg (by omega), if_neg (by omega)]
  | succ n ih =>
    rw [clear, if_pos (by omega), show ph + 2 * (n + 1) = ph + 2 + 2 * n by omega, ih]
    -- the two bytes of the first cell, and all others
    by_cases h₀ : a = ph
    · rw [if_neg (by omega), if_pos (by omega), if_pos (by omega)]
      simp [State.put, h₀]
    · by_cases h₁ : a = ph + 1
      · rw [if_neg (by omega), if_pos (by omega), if_neg (by omega)]
        simp [State.put, h₁]
      · simp only [State.put, Function.update_of_ne h₁, Function.update_of_ne h₀]
        grind

/-- The number of the cell under the cursor, counted row by row. -/
def State.cell (s : State) : Nat := videoNumColumns * s.y + s.x

theorem advance_cell (ch : Byte) {s : State} (hx : s.x < 80) :
    (advance ch s).cell = s.cell + 1 ∧ (advance ch s).x < 80 := by
  simp only [advance, State.put, State.cell, videoNumColumns]
  split_ifs <;> grind

theorem cell_lt_iff {s : State} (hx : s.x < 80) : s.cell < 2000 ↔ s.y < 25 := by
  simp only [State.cell, videoNumColumns]
  omega

/-! ## The functions as total functions -/

/-- The characters one after the other, with no test of the bottom. -/
def advances (l : List Byte) (s : State) : State := l.foldl (fun s ch => advance ch s) s

theorem advances_cell (l : List Byte) {s : State} (hx : s.x < 80) :
    (advances l s).cell = s.cell + l.length ∧ (advances l s).x < 80 := by
  induction l generalizing s with
  | nil => exact ⟨rfl, hx⟩
  | cons ch l ih =>
    have h := advance_cell ch hx
    have hl := ih h.2
    refine ⟨?_, hl.2⟩
    rw [List.length_cons, ← add_assoc, add_right_comm, ← h.1]
    exact hl.1

/-- A string that ends above the bottom is printed without `init`. -/
theorem prints_above (init : State → Option State) (l : List Byte) {s : State} (hx : s.x < 80)
    (h : s.cell + l.length < 2000) : prints init l s = some (l.length, advances l s) := by
  induction l generalizing s with
  | nil => rfl
  | cons ch l ih =>
    have hc := advance_cell ch hx
    have hlt : (advance ch s).cell + l.length < 2000 := by
      rw [hc.1]
      rw [List.length_cons] at h
      omega
    have hy : (advance ch s).y < 25 := (cell_lt_iff hc.2).mp (by omega)
    rw [prints, writeChar, if_neg (by omega), Option.bind_eq_bind, Option.bind_some, ih hc.2 hlt]
    rfl

theorem title_length : title.length = 66 := by decide

/-- The empty screen, with the cursor behind the title. -/
def titleRow (s : State) : State :=
  advances title (clear ORIG (ORIG + 4000) { s with x := 0, y := 0 })

/-- The empty screen with the title, with the cursor in the next row. -/
def titled (s : State) : State := updateCursor (println (titleRow s))

theorem titleRow_cell (s : State) : (titleRow s).cell = 66 ∧ (titleRow s).x < 80 := by
  have h := advances_cell title (s := clear ORIG (ORIG + 4000) { s with x := 0, y := 0 }) (by simp)
  have hcell : (clear ORIG (ORIG + 4000) { s with x := 0, y := 0 }).cell = 0 := by
    simp [State.cell]
  rw [title_length, hcell] at h
  exact h

theorem conInit_succ (fuel : Nat) (s : State) : conInit (fuel + 1) s = some (titled s) := by
  have hp := prints_above (conInit fuel) title
    (s := clear ORIG (ORIG + 4000) { s with x := 0, y := 0 }) (by simp)
    (by simp [State.cell, title_length])
  simp only [conInit, printk, hp, Option.bind_eq_bind, Option.bind_some, Option.pure_def]
  rfl

/-- `write_char` -/
def emit (ch : Byte) (s : State) : State :=
  let s := advance ch s
  if 25 ≤ s.y then { titled s with y := (titled s).y % 25 } else s

/-- The characters one after the other through `write_char`. -/
def emits (l : List Byte) (s : State) : State := l.foldl (fun s ch => emit ch s) s

theorem writeChar_eq (fuel : Nat) (ch : Byte) (s : State) :
    writeChar (conInit (fuel + 1)) ch s = some (emit ch s) := by
  simp only [writeChar, emit, conInit_succ]
  split_ifs <;> rfl

theorem writeAll_writeChar (fuel : Nat) (l : List Byte) (s : State) :
    writeAll (writeChar (conInit (fuel + 1))) l s = some (emits l s) := by
  simp only [writeAll, writeChar_eq]
  exact List.foldlM_pure

theorem prints_eq (fuel : Nat) (l : List Byte) (s : State) :
    prints (conInit (fuel + 1)) l s = some (l.length, emits l s) := by
  induction l generalizing s with
  | nil => rfl
  | cons ch l ih =>
    rw [prints, writeChar_eq, Option.bind_eq_bind, Option.bind_some, ih]
    rfl

theorem printk_eq (fuel : Nat) (l : List Byte) (s : State) :
    printk (conInit (fuel + 1)) l s = some (l.length, println (emits l s)) := by
  rw [printk, prints_eq]
  rfl

/-- What a call does. -/
def Call.effect : Call → State → State
  | .printk fmt, s => Console.println (emits fmt s)
  | .prints fmt, s => emits fmt s
  | .println, s => Console.println s
  | .printchar c, s => Console.printchar c s
  | .printa a, s => emits (printaChars a) s
  | .printbin el, s => emits (printbinChars 32 el) s
  | .printhex c, s => emits (48 :: 120 :: printhexChars 2 c) s

/-- Every call returns. -/
theorem Call.run_eq (fuel : Nat) (call : Call) (s : State) :
    call.run (conInit (fuel + 1)) s = some (call.effect s) := by
  cases call with
  | printk fmt => rw [run, printk_eq]; rfl
  | prints fmt => rw [run, prints_eq]; rfl
  | println => rfl
  | printchar c => rfl
  | printa a => rw [run, printa_eq, writeAll_writeChar]; rfl
  | printbin el => rw [run, Console.printbin, printbinLoop_eq, writeAll_writeChar]; rfl
  | printhex c => rw [run, printhex_eq, writeAll_writeChar]; rfl

/-! ## The screen -/

/-- The cursor is on the screen. -/
def OnScreen (s : State) : Prop := s.x < 80 ∧ s.y < 25

/-- From `s` to `s'` only video memory was written. -/
def Within (s s' : State) : Prop :=
  ∃ w, s'.writes = s.writes ++ w ∧ ∀ a ∈ w, ORIG ≤ a ∧ a < ORIG + 4000

theorem Within.refl (s : State) : Within s s := ⟨[], (List.append_nil _).symm, by simp⟩

/-- A function that leaves the log as it is may come before or after. -/
theorem Within.of_eq {s s' : State} (h : s'.writes = s.writes) : Within s s' :=
  ⟨[], by rw [h, List.append_nil], by simp⟩

theorem Within.trans {s₁ s₂ s₃ : State} (h : Within s₁ s₂) (h' : Within s₂ s₃) :
    Within s₁ s₃ := by
  obtain ⟨w, hw, hin⟩ := h
  obtain ⟨w', hw', hin'⟩ := h'
  refine ⟨w ++ w', by rw [hw', hw, List.append_assoc], fun a ha => ?_⟩
  rcases List.mem_append.mp ha with ha | ha
  · exact hin a ha
  · exact hin' a ha

theorem within_put (s : State) {a : Nat} (v : Byte) (h : ORIG ≤ a ∧ a < ORIG + 4000) :
    Within s (s.put a v) :=
  ⟨[a], rfl, fun _ hb => List.mem_singleton.mp hb ▸ h⟩

/-- The two bytes of a cell. -/
theorem within_cell (s : State) {k : Nat} (hk : k < 2000) (ch : Byte) :
    Within s ((s.put (ORIG + 2 * k) ch).put (ORIG + 2 * k + 1) attr) :=
  (within_put s ch (by omega)).trans (within_put _ attr (by omega))

theorem within_clear (s : State) {i j : Nat} (h : j ≤ 2000) :
    Within s (clear (ORIG + 2 * i) (ORIG + 2 * j) s) := by
  rcases Nat.lt_or_ge i j with hij | hij
  · have hw := clear_writes (ORIG + 2 * i) (j - i) s
    rw [show ORIG + 2 * i + 2 * (j - i) = ORIG + 2 * j by omega] at hw
    refine ⟨_, hw, fun a ha => ?_⟩
    rw [List.mem_range'_1] at ha
    omega
  · rw [clear, if_neg (by omega)]
    exact Within.refl s

/-- `s'` has the cursor on the screen, and only video memory was written since `s`. -/
def Good (s s' : State) : Prop := Within s s' ∧ OnScreen s'

theorem Good.trans {s₁ s₂ s₃ : State} (h : Good s₁ s₂) (h' : Good s₂ s₃) : Good s₁ s₃ :=
  ⟨h.1.trans h'.1, h'.2⟩

theorem advance_within (ch : Byte) {s : State} (h : OnScreen s) : Within s (advance ch s) := by
  have hk : s.cell < 2000 := (cell_lt_iff h.1).mpr h.2
  have hc := within_cell s hk ch
  have hpos : ORIG + videoNumColumns * 2 * s.y + s.x * 2 = ORIG + 2 * s.cell := by
    rw [State.cell, videoNumColumns]
    ring
  rw [advance, hpos]
  refine hc.trans (Within.of_eq ?_)
  split_ifs <;> rfl

theorem advances_good (l : List Byte) {s : State} (hx : s.x < 80)
    (h : s.cell + l.length < 2000) : Good s (advances l s) := by
  induction l generalizing s with
  | nil => exact ⟨Within.refl s, hx, (cell_lt_iff hx).mp (by omega)⟩
  | cons ch l ih =>
    rw [List.length_cons] at h
    have hc := advance_cell ch hx
    have hon : OnScreen s := ⟨hx, (cell_lt_iff hx).mp (by omega)⟩
    have hl := ih hc.2 (by omega)
    exact ⟨(advance_within ch hon).trans hl.1, hl.2⟩

theorem println_good {s : State} (h : OnScreen s) : Good s (println s) := by
  obtain ⟨hx, hy⟩ := h
  have hph : ORIG + videoNumColumns * 2 * s.y + s.x * 2 = ORIG + 2 * s.cell := by
    rw [State.cell, videoNumColumns]
    ring
  have hrow (k : Nat) : ORIG + videoNumColumns * 2 * k = ORIG + 2 * (80 * k) := by
    rw [videoNumColumns]
    ring
  rw [println, hph]
  simp only [hrow, clear_y]
  split_ifs with hlt
  · refine ⟨?_, by simp [OnScreen]; omega⟩
    exact (Within.of_eq rfl).trans (within_clear _ (by omega))
  · refine ⟨?_, by simp [OnScreen]⟩
    have hfirst := within_clear { s with x := 0, y := s.y + 1 } (i := 0) (j := 80) (by omega)
    exact ((Within.of_eq rfl).trans hfirst).trans
      ((Within.of_eq rfl).trans (within_clear _ (by omega)))

theorem printchar_good (c : Byte) {s : State} (h : OnScreen s) : Good s (printchar c s) := by
  obtain ⟨hx, hy⟩ := h
  have hk : s.cell < 2000 := (cell_lt_iff hx).mpr hy
  have hpos : ORIG + (videoNumColumns * s.y + s.x) * 2 = ORIG + 2 * s.cell := by
    rw [State.cell]
    ring
  have hc := within_cell s hk c
  rw [printchar, hpos]
  refine ⟨hc.trans (Within.of_eq ?_), ?_⟩
  · split_ifs <;> rfl
  · simp only [OnScreen, State.put]
    split_ifs <;> grind

theorem updateCursor_good {s s' : State} (h : Good s s') : Good s (updateCursor s') :=
  ⟨h.1.trans (Within.of_eq rfl), h.2⟩

/-- The wrap at the bottom of `write_char`. -/
theorem wrap_good {s s' : State} (h : Good s s') : Good s { s' with y := s'.y % 25 } :=
  ⟨h.1.trans (Within.of_eq rfl), h.2.1, Nat.mod_lt _ (by decide)⟩

/-- `con_init` may start with the cursor anywhere. -/
theorem titled_good (s : State) : Good s (titled s) := by
  have hclear : Within { s with x := 0, y := 0 }
      (clear ORIG (ORIG + 4000) { s with x := 0, y := 0 }) := by
    simpa using within_clear { s with x := 0, y := 0 } (i := 0) (j := 2000) (by omega)
  have htitle := advances_good title (s := clear ORIG (ORIG + 4000) { s with x := 0, y := 0 })
    (by simp) (by simp [State.cell, title_length])
  have hstart : Within s { s with x := 0, y := 0 } := Within.of_eq rfl
  have hln := htitle.trans (println_good htitle.2)
  exact updateCursor_good ⟨(hstart.trans hclear).trans hln.1, hln.2⟩

theorem emit_good (ch : Byte) {s : State} (h : OnScreen s) : Good s (emit ch s) := by
  have ha := advance_within ch h
  have hc := advance_cell ch h.1
  rw [emit]
  split_ifs with hy
  · have ht := titled_good (advance ch s)
    exact wrap_good ⟨ha.trans ht.1, ht.2⟩
  · exact ⟨ha, hc.2, by omega⟩

theorem emits_good (l : List Byte) {s : State} (h : OnScreen s) : Good s (emits l s) := by
  induction l generalizing s with
  | nil => exact ⟨Within.refl s, h⟩
  | cons ch l ih =>
    have hch := emit_good ch h
    exact hch.trans (ih hch.2)

/-- Every call keeps the cursor on the screen and writes video memory only. -/
theorem Call.effect_good (call : Call) {s : State} (h : OnScreen s) : Good s (call.effect s) := by
  cases call with
  | printk fmt =>
    have hs := emits_good fmt h
    exact hs.trans (println_good hs.2)
  | prints fmt => exact emits_good fmt h
  | println => exact println_good h
  | printchar c => exact printchar_good c h
  | printa a => exact emits_good _ h
  | printbin el => exact emits_good _ h
  | printhex c => exact emits_good _ h

theorem effects_good (calls : List Call) {s : State} (h : OnScreen s) :
    Good s (calls.foldl (fun s call => call.effect s) s) := by
  induction calls generalizing s with
  | nil => exact ⟨Within.refl s, h⟩
  | cons call calls ih =>
    have hcall := call.effect_good h
    exact hcall.trans (ih hcall.2)

/-- Every sequence of calls after `con_init` returns with one level of nesting, with the cursor on
the screen, and has written video memory only. -/
theorem session_onScreen (calls : List Call) (s : State) :
    ∃ s', (∀ fuel, session (fuel + 1) calls s = some s') ∧ s'.x < 80 ∧ s'.y < 25 ∧
      ∃ w, s'.writes = s.writes ++ w ∧ ∀ a ∈ w, 0xb8000 ≤ a ∧ a < 0xb8000 + 4000 := by
  have ht := titled_good s
  have hcalls := ht.trans (effects_good calls ht.2)
  refine ⟨_, fun fuel => ?_, hcalls.2.1, hcalls.2.2, hcalls.1⟩
  rw [session, conInit_succ]
  simp only [Call.run_eq, Option.bind_eq_bind, Option.bind_some]
  exact List.foldlM_pure

end Mks.Console
