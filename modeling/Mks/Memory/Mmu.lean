import Mks.Memory.Recursion

set_option autoImplicit false

/-! # Address translation and its cache

`Paging.lean` takes kernel pointers as physical addresses and knows no translation cache. Here the
functions of `kernel/memory.c` run on a processor with paging switched on: every access of the kernel
to a page directory, a page table or a frame goes through the page tables themselves, and the
processor may have kept an entry that has been replaced since `invalidate()` last reloaded `cr3`.
`stale` has these entries. An access goes wrong (`none`) if its page is not mapped where no fault is
expected, or if it depends on whether the processor uses the present entry or an old one.
-/

namespace Mks

/-- Memory, and for each page the replaced entries that the processor may still use. -/
structure Mmu where
  mem : Mem
  stale : Nat → List Word

namespace Mmu

open Mem

/-- Nothing has been replaced since the last reload of `cr3`. -/
def settled (m : Mem) : Mmu := ⟨m, fun _ => []⟩

/-- The frame that an access to page `n` reaches. -/
def frame (c : Mmu) (n : Nat) : Option Nat :=
  (c.mem.frameOf n).filter fun f => (c.stale n).all fun e => mapNr e = f

def load (c : Mmu) (a : Word) : Option Word :=
  (c.frame (mapNr a)).map fun f => c.mem.phys f (wordNr a)

/-- The memory becomes `m`. Present entries that this replaces may be used on. -/
def change (c : Mmu) (m : Mem) : Mmu where
  mem := m
  stale n :=
    if n < 1048576 ∧ present (c.mem.pte n) ∧ m.pte n ≠ c.mem.pte n then
      c.mem.pte n :: c.stale n
    else c.stale n

def store (c : Mmu) (a v : Word) : Option Mmu :=
  (c.frame (mapNr a)).map fun f => c.change (c.mem.put f (wordNr a) v)

/-- `invalidate` -/
def invalidate (c : Mmu) : Mmu := settled c.mem

def setMap (c : Mmu) (i : Nat) (n : BitVec 8) : Mmu := { c with mem := c.mem.setMap i n }

/-- The loop of `get_free_page` that clears a frame. -/
def clear (c : Mmu) (i : Nat) : Option Mmu :=
  (c.frame (mapNr (frameAddr i))).map fun f => c.change (c.mem.clear f)

/-! ## Allocation and page faults -/

mutual

def getFreePage : Nat → Mmu → Option (Word × Mmu)
  | 0, _ => none
  | n + 1, c =>
    match c.mem.firstFree with
    | none => some (0, c)
    | some i =>
      if i &&& 0x3FF = 0x3FD then
        (createPageTable n (c.setMap i 1) (frameAddr (i + 2))).bind fun (j, c) =>
          let c := c.setMap i 0
          if j = -1 then some (0, c)
          else (touch n c i).bind fun c => (c.clear i).map fun c => (frameAddr i, c.setMap i 1)
      else (touch n c i).bind fun c => (c.clear i).map fun c => (frameAddr i, c.setMap i 1)

/-- The first access to frame `i`: a page fault unless the page is mapped. -/
def touch : Nat → Mmu → Nat → Option Mmu
  | 0, _, _ => none
  | n + 1, c, i =>
    if (c.mem.frameOf (mapNr (frameAddr i))).isSome then some c else doNoPage n c (frameAddr i)

def createPageTable : Nat → Mmu → Word → Option (Int × Mmu)
  | 0, _, _ => none
  | n + 1, c, addr =>
    (c.load (tablePtr addr)).bind fun table =>
    if present table then some (0, c)
    else (getFreePage n c).bind fun (page, c) =>
      if page = 0 then some (-1, c)
      else (c.store (tablePtr addr) (page ||| 7)).map fun c => (1, c.invalidate)

/-- `while(!((*table) & 1)) create_page_table(addr);` -/
def needTable : Nat → Mmu → Word → Option Mmu
  | 0, _, _ => none
  | n + 1, c, addr =>
    (c.load (tablePtr addr)).bind fun table =>
    if present table then some c
    else (createPageTable n c addr).bind fun (_, c) => needTable n c addr

def doNoPage : Nat → Mmu → Word → Option Mmu
  | 0, _, _ => none
  | n + 1, c, addr =>
    (needTable n c addr).bind fun c =>
    (c.load (tablePtr addr)).bind fun table =>
      let page := pagePtr table addr
      if addr < WINDOW then
        (c.store page ((addr &&& 0xFFFFF000) ||| 7)).map invalidate
      else (getFreePage n c).bind fun (physAddr, c) =>
        if physAddr = 0 then some c else (c.store page (physAddr ||| 7)).map invalidate

end

/-- `copy_page` -/
def copyPage (c : Mmu) (fromAddr toAddr : Word) : Option Mmu :=
  (c.frame (mapNr fromAddr)).bind fun f => (c.frame (mapNr toAddr)).map fun g =>
    c.change { c.mem with phys := Function.update c.mem.phys g (c.mem.phys f) }

def doWpPage (n : Nat) (c : Mmu) (addr : Word) : Option Mmu :=
  (c.load (tablePtr addr)).bind fun table =>
  let page := pagePtr table addr
  (c.load page).bind fun entry =>
  let oldPage := entry &&& 0xFFFFF000
  if c.mem.memMap (mapNr oldPage) = 1 then (c.store page (entry ||| 2)).map invalidate
  else (getFreePage n c).bind fun (newPage, c) =>
    if newPage = 0 then some c
    else
      let c := c.setMap (mapNr oldPage) (c.mem.memMap (mapNr oldPage) - 1)
      (c.copyPage oldPage newPage).bind fun c => (c.store page (newPage ||| 7)).map invalidate

def doIntrPage (n : Nat) (c : Mmu) (errorCode addr : Word) : Option Mmu :=
  if errorCode &&& 1 = 0 then doNoPage n c addr else doWpPage n c addr

/-! ## Sharing -/

/-- `while(!((*from_table) & 1)) do_no_page(from);` -/
def needFromTable : Nat → Mmu → Word → Option Mmu
  | 0, _, _ => none
  | n + 1, c, fromAddr =>
    (c.load (tablePtr fromAddr)).bind fun table =>
    if present table then some c
    else (doNoPage n c fromAddr).bind fun c => needFromTable n c fromAddr

/-- `while(!((*from_page) & 1)) do_no_page(from);` -/
def needFromPage : Nat → Mmu → Word → Option Mmu
  | 0, _, _ => none
  | n + 1, c, fromAddr =>
    (c.load (tablePtr fromAddr)).bind fun table =>
    (c.load (pagePtr table fromAddr)).bind fun page =>
    if present page then some c
    else (doNoPage n c fromAddr).bind fun c => needFromPage n c fromAddr

def sharePage (n : Nat) (c : Mmu) (fromAddr toAddr : Word) : Option Mmu :=
  (needFromTable n c fromAddr).bind fun c =>
  (needFromPage n c fromAddr).bind fun c =>
  (c.load (tablePtr fromAddr)).bind fun fromTable =>
    let fromPage := pagePtr fromTable fromAddr
    (needTable n c toAddr).bind fun c =>
    (c.load (tablePtr toAddr)).bind fun toTable =>
      let toPage := pagePtr toTable toAddr
      (c.load fromPage).bind fun page =>
      let c := c.setMap (mapNr page) (c.mem.memMap (mapNr page) + 1)
      let page := page &&& ~~~2
      (c.store toPage page).bind fun c =>
      (if fromAddr ≥ WINDOW then c.store fromPage page else some c).map invalidate

/-- The loop of `share_multi_pages`. -/
def sharePages (n : Nat) : Nat → Mmu → Word → Word → Option Mmu
  | 0, c, _, _ => some c
  | amount + 1, c, fromAddr, toAddr =>
    (sharePage n c fromAddr toAddr).bind fun c =>
      sharePages n amount c (fromAddr + 0x1000) (toAddr + 0x1000)

def shareMultiPages (n : Nat) (c : Mmu) (fromAddr toAddr : Word) (amount : Nat) :
    Option (Int × Mmu) :=
  if fromAddr &&& 0xFFF ≠ 0 ∨ toAddr &&& 0xFFF ≠ 0 then some (-1, c)
  else (sharePages n amount c fromAddr toAddr).map fun c => (1, c)

/-! ## Accesses of user code -/

/-- The entry that an access of user code to page `n` uses, if it is the same frame with the same
right to write whichever the processor takes. -/
def entry (c : Mmu) (n : Nat) : Option Word :=
  if (c.stale n).all fun e =>
    entryFrame e = c.mem.frameOf n && writable e = writable (c.mem.pte n) then
    some (c.mem.pte n)
  else none

def userRead : Nat → Mmu → Word → Option (Word × Mmu)
  | 0, _, _ => none
  | n + 1, c, a =>
    (c.entry (mapNr a)).bind fun e =>
    if present e then some (c.mem.phys (mapNr e) (wordNr a), c)
    else (doIntrPage n c 4 a).bind fun c => userRead n c a

def userWrite : Nat → Mmu → Word → Word → Option Mmu
  | 0, _, _, _ => none
  | n + 1, c, a, v =>
    (c.entry (mapNr a)).bind fun e =>
    if present e then
      if writable e then some (c.change (c.mem.put (mapNr e) (wordNr a) v))
      else (doIntrPage n c 7 a).bind fun c => userWrite n c a v
    else (doIntrPage n c 6 a).bind fun c => userWrite n c a v

/-! ## Accesses when nothing is stale -/

variable {m m' : Mem} {hi : Nat}

@[simp] theorem settled_mem (m : Mem) : (settled m).mem = m := rfl

@[simp] theorem invalidate_change (c : Mmu) (m : Mem) : (c.change m).invalidate = settled m := rfl

@[simp] theorem settled_setMap (m : Mem) (i : Nat) (n : BitVec 8) :
    (settled m).setMap i n = settled (m.setMap i n) := rfl

@[simp] theorem settled_frame (m : Mem) (n : Nat) : (settled m).frame n = m.frameOf n := by
  cases h : m.frameOf n <;> simp [frame, settled, h]

@[simp] theorem settled_entry (m : Mem) (n : Nat) : (settled m).entry n = some (m.pte n) := by
  simp [entry, settled]

theorem settled_load {a : Word} (h : m.frameOf (mapNr a) = some (mapNr a)) :
    (settled m).load a = some (m.load a) := by
  rw [load, settled_frame, h]
  rfl

theorem store_of_frame {c : Mmu} {a : Word} (h : c.frame (mapNr a) = some (mapNr a)) (v : Word) :
    c.store a v = some (c.change (c.mem.store a v)) := by
  rw [store, h]
  rfl

/-- A store and a reload of `cr3`. -/
theorem settled_store {a : Word} (h : m.frameOf (mapNr a) = some (mapNr a)) (v : Word) :
    ((settled m).store a v).map invalidate = some (settled (m.store a v)) := by
  rw [store_of_frame (by rw [settled_frame, h])]
  rfl

/-- What replaces no entry leaves nothing stale. -/
theorem settled_change (h : ∀ n < 1048576, m'.pte n = m.pte n) :
    (settled m).change m' = settled m' := by
  unfold change settled
  congr 1
  funext n
  rw [if_neg]
  rintro ⟨hn, -, hne⟩
  exact hne (h n hn)

end Mmu

end Mks
