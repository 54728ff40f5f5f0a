import Mks.Basic
import Mathlib.Logic.Function.Basic
import Mathlib.Tactic

set_option autoImplicit false

/-! # The console

The output functions of `kernel/printk.c`. They share the cursor and write the video memory directly;
`write_char` starts again with an empty screen and the title when the cursor leaves the bottom, and
`con_init`, which it calls for that, prints the title through `write_char`. The functions that
can reach `con_init` have it as the parameter `init`; `conInit fuel` closes the recursion for calls
nested at most `fuel` deep.
-/

namespace Mks.Console

abbrev Byte := BitVec 8

def ORIG : Nat := 0xb8000
def videoNumColumns : Nat := 80
def attr : Byte := 0x07

/-- `x` and `y` stay below 80 and 25 (`OnScreen`), so no arithmetic on them overflows. -/
structure State where
  mem : Nat → Byte
  x : Nat
  y : Nat
  /-- the addresses that were written through `pos`, `ph` and `ph1`, in order -/
  writes : List Nat
  /-- the ports that were written, with the bytes, in order -/
  ports : List (Nat × Byte)

namespace State

/-- The assignment of `v` to the byte at `a`. -/
def put (s : State) (a : Nat) (v : Byte) : State :=
  { s with mem := Function.update s.mem a v, writes := s.writes ++ [a] }

def outb (s : State) (v : Byte) (port : Nat) : State := { s with ports := s.ports ++ [(port, v)] }

end State

/-- A string of the source, without the `'\0'` that ends it, as its bytes. -/
def bytes (cs : List Char) : List Byte := cs.map fun c => BitVec.ofNat 8 c.toNat

/-- The string that `con_init` prints. -/
def title : List Byte :=
  bytes (List.replicate 18 ' ' ++
    ['M', 'K', 'S', ' ', '-', '-', ' ', 'M', 'i', 'c', 'r', 'o', ' ', 'K', 'e', 'r', 'n', 'e', 'l',
     ' ', 'f', 'o', 'r', ' ', 'S', 't', 'u', 'd', 'y'] ++ List.replicate 19 ' ')

/-! ## The loops that clear -/

/-- `while(ph < pe) { *ph++ = 32; *ph++ = attr; }` -/
def clear (ph pe : Nat) (s : State) : State :=
  if ph < pe then clear (ph + 2) pe ((s.put ph 32).put (ph + 1) attr) else s
termination_by pe - ph

def updateCursor (s : State) : State :=
  let pos := ORIG + (videoNumColumns * s.y + s.x) * 2
  let s := s.outb 0x0E 0x3D4
  let s := s.outb (BitVec.ofNat 8 (pos / 2 ^ 8)) 0x3D5
  let s := s.outb 0x0F 0x3D4
  s.outb (BitVec.ofNat 8 pos) 0x3D5

def println (s : State) : State :=
  let ph := ORIG + videoNumColumns * 2 * s.y + s.x * 2
  let s := { s with x := 0, y := s.y + 1 }
  if s.y < 25 then
    clear ph (ORIG + videoNumColumns * 2 * (s.y + 1)) s
  else
    let s := clear ORIG (ORIG + videoNumColumns * 2) s
    let pe := ORIG + videoNumColumns * 2 * s.y
    clear ph pe { s with y := 0 }

def printchar (c : Byte) (s : State) : State :=
  let pos := ORIG + (videoNumColumns * s.y + s.x) * 2
  let s := (s.put pos c).put (pos + 1) attr
  let s := { s with x := s.x + 1 }
  let s := if 80 ≤ s.x then { s with x := 0, y := s.y + 1 } else s
  if 25 ≤ s.y then { s with y := 1, x := 0 } else s

/-! ## The writer -/

/-- `write_char` up to the test of the bottom. -/
def advance (ch : Byte) (s : State) : State :=
  let pos := ORIG + videoNumColumns * 2 * s.y + s.x * 2
  let s := (s.put pos ch).put (pos + 1) attr
  let s := { s with x := s.x + 1 }
  if 80 ≤ s.x then { s with y := s.y + s.x / 80, x := s.x % 80 } else s

section Init

variable (init : State → Option State)

def writeChar (ch : Byte) (s : State) : Option State :=
  let s := advance ch s
  if 25 ≤ s.y then do
    let s ← init s
    return { s with y := s.y % 25 }
  else some s

/-- `prints`, with the number of characters that it returns. -/
def prints : List Byte → State → Option (Nat × State)
  | [], s => some (0, s)
  | ch :: ps, s => do
    let s ← writeChar init ch s
    let (i, s) ← prints ps s
    return (i + 1, s)

def printk (fmt : List Byte) (s : State) : Option (Nat × State) := do
  let (a, s) ← prints init fmt s
  return (a, println s)

end Init

/-- `con_init`; `none` if it is entered more than `fuel` times before it returns. -/
def conInit : Nat → State → Option State
  | 0, _ => none
  | fuel + 1, s => do
    let s := { s with x := 0, y := 0 }
    let s := clear ORIG (ORIG + 4000) s
    let (_, s) ← printk (conInit fuel) title s
    return updateCursor s

/-! ## Numbers

`printa` and `printbin` are the same for every function `write` in the place of `write_char`. -/

section Writer

variable {σ : Type} (write : Byte → σ → Option σ)

def printCharina (a : Word) (s : σ) : Option σ :=
  if h : a = 0 then some s
  else do
    let b := a / 10
    let c := b * 10
    let c := a - c
    have : (a / 10).toNat < a.toNat := by
      have : a.toNat ≠ 0 := fun h0 => h (BitVec.eq_of_toNat_eq h0)
      rw [BitVec.toNat_udiv]
      exact Nat.div_lt_self (by omega) (by decide)
    let s ← printCharina b s
    let c := c + 48
    write (c.setWidth 8) s
termination_by a.toNat

def printa (a : Word) (s : σ) : Option σ := do
  let b := a
  let c := b >>> 31
  let (b, s) ← if c = 1 then do
      let s ← write 45 s
      some (~~~(b - 1), s)
    else some (b, s)
  let c := b &&& 0x7FFFFFFF
  if c = 0 then write 48 s else printCharina write c s

/-- The loop of `printbin`, for `i` more turns. -/
def printbinLoop : Nat → Word → σ → Option σ
  | 0, _, s => some s
  | i + 1, ef, s => do
    let s ← if ef &&& 0x80000000 ≠ 0 then write 49 s else write 48 s
    printbinLoop i (ef <<< 1) s

def printbin (el : Word) (s : σ) : Option σ := printbinLoop write 32 el s

end Writer

/-- The loop of `printhex`, for `i` more turns. -/
def printhexLoop (init : State → Option State) : Nat → Byte → State → Option State
  | 0, _, s => some s
  | i + 1, c, s => do
    let c := (c <<< 4) ||| (c >>> 4)
    let tmp := c &&& 0x0F
    let (tmp, s) ←
      if 9 < tmp then some (tmp - 10 + 65, s)
      else if 0 ≤ tmp ∧ tmp ≤ 9 then some (tmp + 48, s)
      else do
        let (_, s) ← printk init (bytes ['e', 'r', 'r', 'o', 'r']) s
        some (tmp, s)
    let s ← writeChar init tmp s
    printhexLoop init i c s

def printhex (init : State → Option State) (c : Byte) (s : State) : Option State := do
  let s ← writeChar init 48 s
  let s ← writeChar init 120 s
  printhexLoop init 2 c s

/-! ## Sequences of calls -/

inductive Call where
  | printk (fmt : List Byte)
  | prints (fmt : List Byte)
  | println
  | printchar (c : Byte)
  | printa (a : Word)
  | printbin (el : Word)
  | printhex (c : Byte)

def Call.run (init : State → Option State) : Call → State → Option State
  | .printk fmt, s => (Console.printk init fmt s).map Prod.snd
  | .prints fmt, s => (Console.prints init fmt s).map Prod.snd
  | .println, s => some (Console.println s)
  | .printchar c, s => some (Console.printchar c s)
  | .printa a, s => Console.printa (writeChar init) a s
  | .printbin el, s => Console.printbin (writeChar init) el s
  | .printhex c, s => Console.printhex init c s

/-- `con_init`, and then the calls one after the other. -/
def session (fuel : Nat) (calls : List Call) (s : State) : Option State := do
  let s ← conInit fuel s
  calls.foldlM (fun s call => call.run (conInit fuel) s) s

end Mks.Console
