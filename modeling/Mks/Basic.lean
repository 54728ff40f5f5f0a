import Mathlib.Data.Int.Notation
import Mathlib.Data.BitVec

set_option autoImplicit false

/-! # Types and constants of the kernel

`long` and `int` values that are only copied and compared are integers; addresses and page-table
words, on which the code does 32-bit arithmetic, are `Word`. The constants are
those of `include/config.h`, `include/kernel/proc.h` and `include/kernel/messaging.h`.
-/

namespace Mks

/-- A 32-bit word: an address, a page-table entry, a word of memory. -/
abbrev Word := BitVec 32

/-! ## `include/config.h` -/

def NR_PROCS : Int := 64
def COUNTER : Int := 10
def PROC_IDLE_NR : Int := 0
def PROC_INIT_NR : Int := 1
def PROC_SYSTEM_NR : Int := 2
def NR_INIT_PROCS : Nat := 3
def PAGE_DIR_ADDR : Word := 0x7000

/-! ## `include/kernel/proc.h` -/

def RUNNING : Int := 0
def SLEEPING : Int := 1

/-! ## `include/kernel/messaging.h` -/

def MSG_ANY : Int := -1
def MSG_HARDWARE : Int := -2
def NR_MSG_HARDWARE : Nat := 1024

end Mks
