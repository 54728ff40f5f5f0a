import Mks.Process.Sched
import Mks.Memory.Paging

set_option autoImplicit false

/-! # Messages (`kernel/messaging.c`, `intr_msg` of `kernel/asm.s`)

A `struct msg_struct *` is a `NodeId`: a slot of `msg_hardware`, or the node that a system call
of a process makes on its kernel stack. The fields `src`, `dest` and `msg` are in `heap`, the
`next` fields and the eight head and tail pointers are the `Links` of `Lib/Linked.lean`. The
pointers to the caller's registers `ebx` and `ecx`, which `intr_msg` saves on the kernel stack,
are addresses of `cells`.

A call that blocks ends in `schedule`; its result is what the caller gets when it runs again.
-/

namespace Mks

open Linked

inductive NodeId
  | hardware (i : Nat)
  | stack (pid : Int)
  deriving DecidableEq, Repr

/-- `struct msg_struct` without `next`. -/
structure MsgStruct where
  src : Int
  dest : Int
  msg : Int
  deriving DecidableEq, Repr

inductive MsgQueue
  | smallSend | smallReceive | bigSend | bigReceive
  deriving DecidableEq, Repr

structure Kernel where
  sched : Sched
  heap : NodeId → MsgStruct
  links : Links NodeId MsgQueue
  cells : Int → Int
  mem : Mem

/-- More nodes than there can be in a queue: the bound of the loops. -/
def NR_NODES : Nat := 1088

namespace Kernel

/-- `*(long *)a = v` -/
def write (k : Kernel) (a v : Int) : Kernel :=
  { k with cells := Function.update k.cells a v }

/-- `proc[p]->state = st` -/
def setState (k : Kernel) (p st : Int) : Option Kernel :=
  (k.sched.setState p st).map fun s => { k with sched := s }

def schedule (k : Kernel) : Option Kernel :=
  k.sched.schedule.map fun s => { k with sched := s }

/-! ## The loops over the queues -/

/-- The search with `msg_t` trailing behind `msg_p`. -/
def search (k : Kernel) (q : MsgQueue) (hit : NodeId → Bool) :
    Option (Option NodeId × Option NodeId) :=
  find k.links.next hit NR_NODES none (k.links.head q)

/-- Node `p` of a receive queue waits for a message from `src` to `dest`. -/
def accepts (k : Kernel) (src dest : Int) (p : NodeId) : Bool :=
  dest = (k.heap p).dest ∧ (src = k.cells (k.heap p).src ∨ k.cells (k.heap p).src = MSG_ANY)

/-- Node `p` of a send queue is a message that `dest` waits for when it asks for `src`. -/
def offers (k : Kernel) (src dest : Int) (p : NodeId) : Bool :=
  dest = (k.heap p).dest ∧ (src = (k.heap p).src ∨ src = MSG_ANY)

/-- Node `p` of queue `q` is a request of `other` that waits for `me`. -/
def waitsFor (k : Kernel) (q : MsgQueue) (other me : Int) (p : NodeId) : Bool :=
  match q with
  | .smallSend | .bigSend => other = (k.heap p).src ∧ me = (k.heap p).dest
  | .smallReceive | .bigReceive => other = (k.heap p).dest ∧ me = k.cells (k.heap p).src

/-- The loops that reject a call of `me` to `other` when `other` waits for `me` in one of the
queues. -/
def crossed (k : Kernel) (other me : Int) : List MsgQueue → Option Bool
  | [] => some false
  | q :: qs => (k.search q (k.waitsFor q other me)).bind fun r =>
      if r.2.isSome then some true else crossed k other me qs

/-- Remove the node that a search has found. -/
def unlink (k : Kernel) (q : MsgQueue) (t : Option NodeId) (p : NodeId) : Kernel :=
  { k with links := k.links.unlink q t p }

/-- Fill in a node and put it at the end of a queue. -/
def enqueue (k : Kernel) (q : MsgQueue) (p : NodeId) (node : MsgStruct) : Option Kernel :=
  (k.links.append q p).map fun links =>
    { k with heap := Function.update k.heap p node, links := links }

/-- The first slot of `msg_hardware` that is not in use. -/
def freeSlot (k : Kernel) : Option Nat :=
  (List.range NR_MSG_HARDWARE).find? fun i => (k.heap (.hardware i)).src ≠ MSG_HARDWARE

/-! ## The four operations -/

/-- `small_send`; `dest` and `msg` are the values behind the pointers. -/
def smallSend (k : Kernel) (src dest msg : Int) : Option (Int × Kernel) :=
  if (src < 0 ∧ src ≠ MSG_HARDWARE) ∨ src ≥ NR_PROCS then some (-1, k)
  else if dest < 0 ∨ dest ≥ NR_PROCS then some (-1, k)
  else
    (k.search .smallReceive (k.accepts src dest)).bind fun
    | (t, some p) =>
        -- the receiver gets the message at once
        let k := k.write (k.heap p).msg msg
        let k := if k.cells (k.heap p).src = MSG_ANY then k.write (k.heap p).src src else k
        let k := k.unlink .smallReceive t p
        (k.setState (k.heap p).dest RUNNING).bind fun k => k.schedule.map fun k => (1, k)
    | (_, none) =>
        (k.crossed dest src [.smallSend, .bigSend, .bigReceive]).bind fun crossed =>
          if crossed then some (-1, k)
          else if src = MSG_HARDWARE then
            -- an interrupt handler cannot sleep
            match k.freeSlot with
            | none => some (-1, k)
            | some i =>
                (k.enqueue .smallSend (.hardware i) ⟨src, dest, msg⟩).bind fun k =>
                  k.schedule.map fun k => (1, k)
          else
            (k.enqueue .smallSend (.stack src) ⟨src, dest, msg⟩).bind fun k =>
              (k.setState src SLEEPING).bind fun k => k.schedule.map fun k => (1, k)

/-- `small_receive`; `src` and `msg` are the addresses of the caller's registers. -/
def smallReceive (k : Kernel) (src dest msg : Int) : Option (Int × Kernel) :=
  if (k.cells src < 0 ∧ k.cells src ≠ MSG_ANY ∧ k.cells src ≠ MSG_HARDWARE) ∨
      k.cells src ≥ NR_PROCS then some (-1, k)
  else if dest < 0 ∨ dest ≥ NR_PROCS then some (-1, k)
  else
    (k.search .smallSend (k.offers (k.cells src) dest)).bind fun
    | (t, some p) =>
        let k := k.write msg (k.heap p).msg
        let k := if k.cells src = MSG_ANY then k.write src (k.heap p).src else k
        let k := k.unlink .smallSend t p
        -- the slot of a hardware message is free again, any other sender is woken
        (if (k.heap p).src = MSG_HARDWARE then
            some { k with heap := Function.update k.heap p { k.heap p with src := 0 } }
          else k.setState (k.heap p).src RUNNING).bind fun k => k.schedule.map fun k => (1, k)
    | (_, none) =>
        (k.crossed (k.cells src) dest [.smallReceive, .bigSend, .bigReceive]).bind fun crossed =>
          if crossed then some (-1, k)
          else
            (k.enqueue .smallReceive (.stack dest) ⟨src, dest, msg⟩).bind fun k =>
              (k.setState dest SLEEPING).bind fun k => k.schedule.map fun k => (1, k)

/-- `big_send`; `dest` is the address of the caller's register and `msg` the linear address of
the message page. The loops that look for a crossed call compare the pointer `dest` itself, not
the number it points to. -/
def bigSend (n : Nat) (k : Kernel) (src dest msg : Int) : Option (Int × Kernel) :=
  if src < 0 ∨ src ≥ NR_PROCS then some (-1, k)
  else if k.cells dest < 0 ∨ k.cells dest ≥ NR_PROCS then some (-1, k)
  else
    (k.search .bigReceive (k.accepts src (k.cells dest))).bind fun
    | (t, some p) =>
        (k.mem.sharePage n (BitVec.ofInt 32 msg) (BitVec.ofInt 32 (k.heap p).msg)).bind fun mem =>
          let k := { k with mem := mem }
          let k := if k.cells (k.heap p).src = MSG_ANY then k.write (k.heap p).src src else k
          let k := k.unlink .bigReceive t p
          (k.setState (k.heap p).dest RUNNING).bind fun k => k.schedule.map fun k => (1, k)
    | (_, none) =>
        (k.crossed dest src [.smallSend, .smallReceive, .bigSend]).bind fun crossed =>
          if crossed then some (-1, k)
          else
            (k.enqueue .bigSend (.stack src) ⟨src, k.cells dest, msg⟩).bind fun k =>
              (k.setState src SLEEPING).bind fun k => k.schedule.map fun k => (1, k)

/-- `big_receive`; `src` is the address of the caller's register and `msg` the linear address of
the message page. -/
def bigReceive (n : Nat) (k : Kernel) (src dest msg : Int) : Option (Int × Kernel) :=
  if (k.cells src < 0 ∧ k.cells src ≠ MSG_ANY) ∨ k.cells src ≥ NR_PROCS then some (-1, k)
  else if dest < 0 ∨ dest ≥ NR_PROCS then some (-1, k)
  else
    (k.search .bigSend (k.offers (k.cells src) dest)).bind fun
    | (t, some p) =>
        (k.mem.sharePage n (BitVec.ofInt 32 (k.heap p).msg) (BitVec.ofInt 32 msg)).bind fun mem =>
          let k := { k with mem := mem }
          let k := if k.cells src = MSG_ANY then k.write src (k.heap p).src else k
          let k := k.unlink .bigSend t p
          (k.setState (k.heap p).src RUNNING).bind fun k => k.schedule.map fun k => (1, k)
    | (_, none) =>
        (k.crossed (k.cells src) dest [.smallSend, .smallReceive, .bigReceive]).bind fun crossed =>
          if crossed then some (-1, k)
          else
            (k.enqueue .bigReceive (.stack dest) ⟨src, dest, msg⟩).bind fun k =>
              (k.setState dest SLEEPING).bind fun k => k.schedule.map fun k => (1, k)

/-! ## The system call -/

/-- `(entry & 0xFFFFF000) + 0x1000`, in the user library and in the kernel. -/
def getMsgEntry (msgpt : Word) : Word := (msgpt &&& 0xFFFFF000) + 0x1000

/-- The linear address of the message page: the entry in the segment of the process. -/
def msgEntry (pid msg : Int) : Word :=
  getMsgEntry (BitVec.ofInt 32 msg) + BitVec.ofInt 32 (pid * 0x4000000)

/-- `do_intr_msg`; `srcDest` and `msg` are addresses. -/
def doIntrMsg (n : Nat) (k : Kernel) (function srcDest msg : Int) : Option (Int × Kernel) :=
  (k.sched.proc k.sched.procCurrent).bind fun cur =>
    if cur.pid = k.cells srcDest then some (-1, k)
    else if function = 1 then k.smallSend cur.pid (k.cells srcDest) (k.cells msg)
    else if function = 2 then k.smallReceive srcDest cur.pid msg
    else if function = 3 then k.bigSend n cur.pid srcDest (msgEntry cur.pid (k.cells msg)).toInt
    else if function = 4 then k.bigReceive n srcDest cur.pid (msgEntry cur.pid (k.cells msg)).toInt
    else some (-1, k)

end Kernel

/-- Where `intr_msg` saves the registers `ebx` and `ecx` of each process: different addresses on
the kernel stacks, none of which is the number of a process. -/
structure Layout where
  ebx : Int → Int
  ecx : Int → Int
  ebx_inj : Function.Injective ebx
  ecx_inj : Function.Injective ecx
  disjoint : ∀ p p', ebx p ≠ ecx p'
  ebx_ge : ∀ p, 0 ≤ p → NR_PROCS ≤ ebx p

namespace Kernel

/-- `intr_msg` with `eax`, `ebx` and `ecx` of the current process. -/
def intrMsg (n : Nat) (L : Layout) (k : Kernel) (eax ebx ecx : Int) : Option (Int × Kernel) :=
  let p := k.sched.procCurrent
  ((k.write (L.ecx p) ecx).write (L.ebx p) ebx).doIntrMsg n eax (L.ebx p) (L.ecx p)

/-! ## The system

What happens between two moments at which the kernel is not running: a system call of the
current process, a small message sent by an interrupt handler, a clock tick, or an access of the
current process to a word of its segment. The fields of `Kernel` stand for variables and stacks
that lie in frames which processes 1 and 2 can read; the stores to them are operations of their
own, of any value at any time. -/

inductive Op
  | msg (function ebx ecx : Int)
  | hardware (dest msg : Int)
  | clock (cpl : Int)
  | read (a : Word)
  | write (a v : Word)
  | kernelStore (a v : Word)
  deriving DecidableEq

/-- The process whose 64MB window a linear address lies in. -/
def window (a : Word) : Int := (a >>> 26).toNat

/-- The address lies in the segments that `proc_init` makes for process `p`: they start at
`p * 0x4000000`, and their limit is 16384 in units of 4KB. -/
def InSegment (p : Int) (a : Word) : Prop :=
  (a - BitVec.ofInt 32 (p * 0x4000000)).toNat < (16384 + 1) * 4096

instance (p : Int) (a : Word) : Decidable (InSegment p a) := inferInstanceAs (Decidable (_ < _))

def exec (n : Nat) (L : Layout) (k : Kernel) : Op → Option (Int × Kernel)
  | .msg function ebx ecx =>
      if k.sched.procCurrent = PROC_IDLE_NR then none else k.intrMsg n L function ebx ecx
  | .hardware dest msg => k.smallSend MSG_HARDWARE dest msg
  | .clock cpl => (k.sched.doIntrClock cpl).map fun s => (0, { k with sched := s })
  | .read a =>
      if k.sched.procCurrent = PROC_IDLE_NR ∨ ¬ InSegment k.sched.procCurrent a then none
      else (k.mem.userRead n a).map fun (v, mem) => (v.toInt, { k with mem := mem })
  | .write a v =>
      if k.sched.procCurrent = PROC_IDLE_NR ∨ ¬ InSegment k.sched.procCurrent a then none
      else (k.mem.userWrite n a v).map fun mem => (0, { k with mem := mem })
  | .kernelStore a v =>
      if Mem.IsKernelFrame (mapNr a) then some (0, { k with mem := k.mem.store a v }) else none

/-- An access to a word of the memory, by the current process or by the kernel. -/
def Op.isAccess : Op → Bool
  | .read _ | .write _ _ | .kernelStore _ _ => true
  | .msg _ _ _ | .hardware _ _ | .clock _ => false

/-- An access changes the memory alone. -/
theorem exec_access {n : Nat} {L : Layout} {k k' : Kernel} {op : Op} {r : Int}
    (hop : op.isAccess = true) (hs : k.exec n L op = some (r, k')) :
    ∃ mem, k' = { k with mem := mem } := by
  cases op with
  | msg f ebx ecx => cases hop
  | hardware dest msg => cases hop
  | clock cpl => cases hop
  | read a =>
      simp only [exec] at hs
      split_ifs at hs
      obtain ⟨⟨v, mem⟩, -, he⟩ := Option.map_eq_some_iff.mp hs
      exact ⟨mem, (congrArg Prod.snd he).symm⟩
  | write a v =>
      simp only [exec] at hs
      split_ifs at hs
      obtain ⟨mem, -, he⟩ := Option.map_eq_some_iff.mp hs
      exact ⟨mem, (congrArg Prod.snd he).symm⟩
  | kernelStore a v =>
      simp only [exec] at hs
      split_ifs at hs
      exact ⟨k.mem.store a v, (congrArg Prod.snd (Option.some.inj hs)).symm⟩

/-- One operation and its result. -/
def Step (L : Layout) (k : Kernel) (e : Op × Int) (k' : Kernel) : Prop :=
  ∃ n, k.exec n L e.1 = some (e.2, k')

/-- `msg_init` -/
def msgInit (k : Kernel) : Kernel :=
  { k with
    heap := fun p =>
      match p with
      | .hardware _ => ⟨0, 0, 0⟩
      | .stack _ => k.heap p
    links :=
      { next := fun p =>
          match p with
          | .hardware _ => none
          | .stack _ => k.links.next p
        head := fun _ => none
        tail := fun _ => none } }

end Kernel

end Mks
