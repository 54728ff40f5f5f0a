import Mks.Basic
import Mathlib.Data.List.Range
import Mathlib.Logic.Function.Basic

set_option autoImplicit false

/-! # Paging (`kernel/memory.c`, `setup_paging` of `boot/setup32.asm`)

Physical memory is a table of frames of 1024 words. The page directory is the frame at
`PAGE_DIR_ADDR`; its entries and those of the page tables are words of physical memory, as in
the source. The kernel reaches physical memory through the linear addresses below 64MB. The
entries that `setup_paging` makes for the first 32MB are the identity, so there a kernel pointer
is used as the physical address. Above 32MB the kernel window is filled by page faults, and the
first access of the kernel to a frame, the loop in `get_free_page` that clears it, may fault
(`touch`).

The functions that may call each other without end take a bound on the depth of the calls, as
do the loops; `none` means that the bound is too small.
-/

namespace Mks

def PAGING_PAGES : Nat := 16384
def USED : BitVec 8 := 1
def UNUSED : BitVec 8 := 0

/-- `64*1024*1024`: the end of the kernel window, and the size of the window of a process. -/
def WINDOW : Word := 0x4000000

/-- The counters `mem_map` and the words of physical memory, by frame. -/
structure Mem where
  memMap : Nat → BitVec 8
  phys : Nat → Nat → Word

/-- `MAP_NR(addr)` -/
def mapNr (addr : Word) : Nat := (addr >>> 12).toNat

/-- The index of a word in its page. -/
def wordNr (addr : Word) : Nat := ((addr >>> 2) &&& 0x3FF).toNat

/-- The address of a frame. -/
def frameAddr (i : Nat) : Word := BitVec.ofNat 32 (i <<< 12)

namespace Mem

def load (m : Mem) (a : Word) : Word := m.phys (mapNr a) (wordNr a)

def store (m : Mem) (a v : Word) : Mem :=
  { m with
    phys := Function.update m.phys (mapNr a) (Function.update (m.phys (mapNr a)) (wordNr a) v) }

def setMap (m : Mem) (i : Nat) (c : BitVec 8) : Mem :=
  { m with memMap := Function.update m.memMap i c }

/-- The loop of `get_free_page` that clears a frame. -/
def clear (m : Mem) (i : Nat) : Mem := { m with phys := Function.update m.phys i fun _ => 0 }

/-! ## Page directory and page tables -/

/-- `(unsigned long *)((unsigned long)pg_dir + ((addr>>20)&0xFFC))` -/
def tablePtr (addr : Word) : Word := PAGE_DIR_ADDR + ((addr >>> 20) &&& 0xFFC)

/-- `(unsigned long *)((table&0xFFFFF000) + ((addr>>10)&0xFFC))` -/
def pagePtr (table addr : Word) : Word := (table &&& 0xFFFFF000) + ((addr >>> 10) &&& 0xFFC)

/-- The page-directory entry for an address, `*table`. -/
def tableEntry (m : Mem) (addr : Word) : Word := m.load (tablePtr addr)

/-- The page-table entry for an address, `*page`. -/
def pageEntry (m : Mem) (addr : Word) : Word := m.load (pagePtr (m.tableEntry addr) addr)

/-- The present bit of an entry. -/
def present (e : Word) : Bool := e &&& 1 ≠ 0

/-- The write bit of an entry. -/
def writable (e : Word) : Bool := e &&& 2 ≠ 0

/-! ## Allocation and page faults -/

/-- The first of `n` frames that is not in use. -/
@[irreducible] def firstUnused (m : Mem) (n : Nat) : Option Nat :=
  (List.range n).find? fun i => m.memMap i = UNUSED

/-- The frame that the loop of `get_free_page` finds. -/
def firstFree (m : Mem) : Option Nat := m.firstUnused PAGING_PAGES

mutual

/-- Returns the address of a cleared frame, `0` if there is none. The page table for the last
pages of a 4MB block is made before the block's frame `0x3FD` is given away. -/
def getFreePage : Nat → Mem → Option (Word × Mem)
  | 0, _ => none
  | n + 1, m =>
    match m.firstFree with
    | none => some (0, m)
    | some i =>
      if i &&& 0x3FF = 0x3FD then
        -- marked used for as long as the call lasts, which takes a frame itself
        (createPageTable n (m.setMap i 1) (frameAddr (i + 2))).bind fun (j, m) =>
          let m := m.setMap i 0
          if j = -1 then some (0, m)
          else (touch n m i).map fun m => (frameAddr i, (m.clear i).setMap i 1)
      else (touch n m i).map fun m => (frameAddr i, (m.clear i).setMap i 1)

/-- The kernel's first access to frame `i`: a page fault unless the page is mapped. -/
def touch : Nat → Mem → Nat → Option Mem
  | 0, _, _ => none
  | n + 1, m, i =>
    if present (m.tableEntry (frameAddr i)) && present (m.pageEntry (frameAddr i)) then some m
    else doNoPage n m (frameAddr i)

/-- `0`: the page table exists, `1`: it has been made, `-1`: there is no memory for it. -/
def createPageTable : Nat → Mem → Word → Option (Int × Mem)
  | 0, _, _ => none
  | n + 1, m, addr =>
    if present (m.tableEntry addr) then some (0, m)
    else (getFreePage n m).map fun (page, m) =>
      if page = 0 then (-1, m) else (1, m.store (tablePtr addr) (page ||| 7))

/-- `while(!((*table) & 1)) create_page_table(addr);` -/
def needTable : Nat → Mem → Word → Option Mem
  | 0, _, _ => none
  | n + 1, m, addr =>
    if present (m.tableEntry addr) then some m
    else (createPageTable n m addr).bind fun (_, m) => needTable n m addr

/-- The handler of a fault on a page that is not present. A page of the kernel window is mapped
to the frame with its own address. -/
def doNoPage : Nat → Mem → Word → Option Mem
  | 0, _, _ => none
  | n + 1, m, addr =>
    (needTable n m addr).bind fun m =>
      let page := pagePtr (m.tableEntry addr) addr
      if addr < WINDOW then some (m.store page ((addr &&& 0xFFFFF000) ||| 7))
      else (getFreePage n m).map fun (physAddr, m) =>
        if physAddr = 0 then m else m.store page (physAddr ||| 7)

end

def copyPage (m : Mem) (fromAddr toAddr : Word) : Mem :=
  { m with phys := Function.update m.phys (mapNr toAddr) (m.phys (mapNr fromAddr)) }

/-- The handler of a write to a page that is mapped read-only. -/
def doWpPage (n : Nat) (m : Mem) (addr : Word) : Option Mem :=
  let page := pagePtr (m.tableEntry addr) addr
  let oldPage := m.load page &&& 0xFFFFF000
  -- the only user of the frame may write to it
  if m.memMap (mapNr oldPage) = 1 then some (m.store page (m.load page ||| 2))
  else (getFreePage n m).map fun (newPage, m) =>
    if newPage = 0 then m
    else ((m.setMap (mapNr oldPage) (m.memMap (mapNr oldPage) - 1)).copyPage oldPage newPage).store
      page (newPage ||| 7)

/-- `do_intr_page`: bit 0 of the error code is clear when the page was not present. -/
def doIntrPage (n : Nat) (m : Mem) (errorCode addr : Word) : Option Mem :=
  if errorCode &&& 1 = 0 then doNoPage n m addr else doWpPage n m addr

/-! ## Sharing -/

/-- `while(!((*from_table) & 1)) do_no_page(from);` -/
def needFromTable : Nat → Mem → Word → Option Mem
  | 0, _, _ => none
  | n + 1, m, fromAddr =>
    if present (m.tableEntry fromAddr) then some m
    else (doNoPage n m fromAddr).bind fun m => needFromTable n m fromAddr

/-- `while(!((*from_page) & 1)) do_no_page(from);` -/
def needFromPage : Nat → Mem → Word → Option Mem
  | 0, _, _ => none
  | n + 1, m, fromAddr =>
    if present (m.pageEntry fromAddr) then some m
    else (doNoPage n m fromAddr).bind fun m => needFromPage n m fromAddr

/-- Map page `to` to the frame of page `from`, both read-only; a page of the kernel window stays
writable. -/
def sharePage (n : Nat) (m : Mem) (fromAddr toAddr : Word) : Option Mem :=
  (needFromTable n m fromAddr).bind fun m =>
  (needFromPage n m fromAddr).bind fun m =>
    let fromPage := pagePtr (m.tableEntry fromAddr) fromAddr
    (needTable n m toAddr).map fun m =>
      -- `from_page` is the address from before the page table for `to` was made
      let toPage := pagePtr (m.tableEntry toAddr) toAddr
      let page := m.load fromPage
      let m := m.setMap (mapNr page) (m.memMap (mapNr page) + 1)
      let page := page &&& ~~~2
      let m := m.store toPage page
      if fromAddr ≥ WINDOW then m.store fromPage page else m

/-- The loop of `share_multi_pages`. -/
def sharePages (n : Nat) : Nat → Mem → Word → Word → Option Mem
  | 0, m, _, _ => some m
  | amount + 1, m, fromAddr, toAddr =>
    (sharePage n m fromAddr toAddr).bind fun m =>
      sharePages n amount m (fromAddr + 0x1000) (toAddr + 0x1000)

def shareMultiPages (n : Nat) (m : Mem) (fromAddr toAddr : Word) (amount : Nat) :
    Option (Int × Mem) :=
  if fromAddr &&& 0xFFF ≠ 0 ∨ toAddr &&& 0xFFF ≠ 0 then some (-1, m)
  else (sharePages n amount m fromAddr toAddr).map fun m => (1, m)

/-! ## Accesses of user code

The processor walks the tables; an access that faults is repeated after the handler. -/

def userRead : Nat → Mem → Word → Option (Word × Mem)
  | 0, _, _ => none
  | n + 1, m, a =>
    if present (m.tableEntry a) && present (m.pageEntry a) then
      some (m.phys (mapNr (m.pageEntry a)) (wordNr a), m)
    else (doIntrPage n m 4 a).bind fun m => userRead n m a

def userWrite : Nat → Mem → Word → Word → Option Mem
  | 0, _, _, _ => none
  | n + 1, m, a, v =>
    if present (m.tableEntry a) && present (m.pageEntry a) then
      if writable (m.pageEntry a) then
        let f := mapNr (m.pageEntry a)
        some { m with phys := Function.update m.phys f (Function.update (m.phys f) (wordNr a) v) }
      else (doIntrPage n m 7 a).bind fun m => userWrite n m a v
    else (doIntrPage n m 6 a).bind fun m => userWrite n m a v

/-! ## The kernel's own memory -/

/-- The frames of the kernel's code, variables and stacks: the first 640KB, except the page
directory and the tables of `setup_paging`. -/
def IsKernelFrame (f : Nat) : Prop := f < 160 ∧ ¬ (7 ≤ f ∧ f < 16)

instance (f : Nat) : Decidable (IsKernelFrame f) := inferInstanceAs (Decidable (_ ∧ _))

/-! ## Start-up -/

/-- The eight page tables and the first eight entries of the page directory; the tables map the
first 32MB to themselves. -/
def setupPaging (m : Mem) : Mem :=
  { m with phys := fun f i =>
      if f = 7 ∧ i < 8 then 0x8007 + 0x1000 * BitVec.ofNat 32 i
      else if 8 ≤ f ∧ f < 16 ∧ i < 1024 then 7 + 0x1000 * BitVec.ofNat 32 ((f - 8) * 1024 + i)
      else m.phys f i }

/-- `mem_init`: frames are free from `startMem` up to `endMem`, and in use elsewhere. The source
does not check that the main memory lies within `mem_map`. -/
def memInit (m : Mem) (startMem endMem : Word) : Option Mem :=
  let i := mapNr startMem
  let memSize := mapNr (endMem - startMem)
  if i + memSize ≤ PAGING_PAGES then
    some { m with memMap := fun k =>
      if i ≤ k ∧ k < i + memSize then UNUSED else if k < PAGING_PAGES then USED else m.memMap k }
  else none

/-- The bounds of the main memory that `main` computes from the size of the RAM. -/
def mainMemory (memSize : Word) : Word × Word :=
  let memoryEnd := memSize &&& 0xFFFFF000
  let memoryEnd := if memoryEnd > 0x4000000 then 0x4000000 else memoryEnd
  let bufferMemoryEnd : Word :=
    if memoryEnd > 0xC00000 then 0x400000 else if memoryEnd > 0x600000 then 0x200000 else 0x100000
  (bufferMemoryEnd, memoryEnd)

/-- The sharing of the first 640KB with the processes `1, …, NR_INIT_PROCS - 1` in `proc_init`. -/
def procShare (n : Nat) (m : Mem) : Option Mem :=
  (List.range' 1 (NR_INIT_PROCS - 1)).foldlM
    (fun m i => (shareMultiPages n m 0 (WINDOW * BitVec.ofNat 32 i) 160).map Prod.snd) m

/-- The memory when `main` has called `mem_init` and `proc_init`. -/
def boot (n : Nat) (image : Mem) (memSize : Word) : Option Mem :=
  (memInit (setupPaging image) (mainMemory memSize).1 (mainMemory memSize).2).bind (procShare n)

end Mem

end Mks
