import Mks.Basic
import Mks.Lib.Linked

set_option autoImplicit false

/-! # The scheduler (`kernel/proc.c`, `do_intr_clock` of `kernel/time.c`)

The process table, the three ready queues and `proc_current`. A `struct proc_struct *` is the
pid of the process, so `proc[i]` is the partial map `proc`; the `next_ready` fields and the six
head and tail pointers are the `Links` of `Lib/Linked.lean`. `none` as the result of a function
stands for a null dereference, an uninitialised pointer or a loop that does not end.
-/

namespace Mks

open Linked

/-- The fields of `struct proc_struct` that the kernel reads or writes after start-up
(`next_ready` is in `Sched.links`). -/
structure ProcStruct where
  procType : Int
  state : Int
  counter : Int
  pid : Int
  utime : Word
  stime : Word
  deriving DecidableEq, Repr

/-- `task_head`/`task_tail`, `server_head`/`server_tail`, `user_head`/`user_tail`. -/
inductive ReadyQueue
  | task | server | user
  deriving DecidableEq, Repr

/-- The queue that `add_running_proc` and `schedule` use for a `proc_type`. For any other type
their queue pointers stay uninitialised. -/
def ReadyQueue.ofType (procType : Int) : Option ReadyQueue :=
  if procType = 1 then some .task
  else if procType = 2 then some .server
  else if procType = 3 then some .user
  else none

/-- The `proc_type` a queue is for. -/
def ReadyQueue.type : ReadyQueue → Int
  | .task => 1
  | .server => 2
  | .user => 3

/-- The globals of `kernel/proc.c`, and `jiffies` of `kernel/time.c`. -/
structure Sched where
  proc : Int → Option ProcStruct
  links : Links Int ReadyQueue
  procCurrent : Int
  jiffies : Word

namespace Sched

/-- Update the process structure at a pointer. -/
def modify (s : Sched) (p : Int) (f : ProcStruct → ProcStruct) : Option Sched :=
  (s.proc p).map fun pr => { s with proc := Function.update s.proc p (some (f pr)) }

/-- `proc[p]->state = st` -/
def setState (s : Sched) (p st : Int) : Option Sched := s.modify p fun pr => { pr with state := st }

/-- `p->next_ready = v` -/
def setNext (s : Sched) (p : Int) (v : Option Int) : Sched :=
  { s with links := { s.links with next := Function.update s.links.next p v } }

def setHead (s : Sched) (q : ReadyQueue) (v : Option Int) : Sched :=
  { s with links := { s.links with head := Function.update s.links.head q v } }

def setTail (s : Sched) (q : ReadyQueue) (v : Option Int) : Sched :=
  { s with links := { s.links with tail := Function.update s.links.tail q v } }

/-! ## `add_running_proc` -/

/-- The scan of `add_running_proc`: is pid `i` in queue `q`? -/
def onQueue (s : Sched) (q : ReadyQueue) (i : Int) : Option Bool :=
  (find s.links.next (fun p => (s.proc p).any fun pr => pr.pid = i) NR_PROCS.toNat none
    (s.links.head q)).map fun r => r.2.isSome

/-- One iteration of the loop of `add_running_proc`. -/
def addProc (s : Sched) (i : Int) : Option Sched :=
  match s.proc i with
  | none => some s
  | some pr =>
      if pr.state = RUNNING ∧ i ≠ s.procCurrent then
        (ReadyQueue.ofType pr.procType).bind fun q =>
          if s.links.head q = none then
            some (((s.setHead q (some i)).setTail q (some i)).setNext i none)
          else
            (s.onQueue q i).bind fun flag =>
              if flag then some s
              else (s.links.tail q).map fun t =>
                ((s.setNext t (some i)).setTail q (some i)).setNext i none
      else some s

/-- The pids `1, …, NR_PROCS - 1`, in the order of the loop. -/
def pids : List Int := (List.range 63).map fun k : Nat => (k : Int) + 1

/-- Put every runnable process that is in no ready queue at the end of its queue. -/
def addRunningProc (s : Sched) : Option Sched := pids.foldlM addProc s

/-! ## `schedule` -/

/-- `next = head->pid; head = head->next_ready; if(!head) tail = NULL;` -/
def takeHead (s : Sched) (q : ReadyQueue) : Option (Int × Sched) :=
  (s.links.head q).bind fun p => (s.proc p).map fun pr =>
    (pr.pid, { s with links := s.links.pop q p })

/-- Choose the process to run; `0` when no process of the queues may run before the current
one, which has priority `flag`. -/
def pick (s : Sched) (flag : Int) : Option (Int × Sched) :=
  if s.links.head .task ≠ none then s.takeHead .task
  else if s.links.head .server ≠ none ∧ flag > 1 then s.takeHead .server
  else if s.links.head .user ≠ none ∧ flag > 2 then s.takeHead .user
  else some (0, s)

/-- Insert the preempted current process into its ready queue. When the queue is not empty this
also advances the head past the first element, which stays outside the queue until the next
`add_running_proc`. -/
def requeue (s : Sched) (currentType : Int) : Option Sched :=
  let cur := s.procCurrent
  match ReadyQueue.ofType currentType with
  | none => some (s.setNext cur none)
  | some q =>
      match s.links.head q with
      | none => some (((s.setHead q (some cur)).setTail q (some cur)).setNext cur none)
      | some _ =>
          (s.links.tail q).bind fun t =>
            let s := (s.setNext t (some cur)).setTail q (some cur)
            (s.links.head q).map fun h => (s.setHead q (s.links.next h)).setNext cur none

/-- `proc[next]->counter = counter; proc[next]->next_ready = NULL; switch_to(next);` -/
def switchTo (s : Sched) (next counter : Int) : Option Sched :=
  (s.modify next fun pr => { pr with counter := counter }).map fun s =>
    { s.setNext next none with procCurrent := next }

def schedule (s : Sched) : Option Sched :=
  (s.proc s.procCurrent).bind fun cur =>
  s.addRunningProc.bind fun s =>
  (s.pick (if cur.state ≠ RUNNING then 3 else cur.procType)).bind fun (next, s) =>
    if next = 0 ∧ cur.state = RUNNING then
      if cur.pid ≠ 0 then s.modify s.procCurrent fun pr => { pr with counter := COUNTER }
      else some s
    else if next = 0 ∧ cur.state ≠ RUNNING then s.switchTo next 0
    else if next ≠ 0 ∧ cur.state = RUNNING ∧ cur.pid ≠ 0 then
      (s.requeue cur.procType).bind fun s => s.switchTo next COUNTER
    else s.switchTo next COUNTER

/-! ## `do_intr_clock` -/

/-- The clock interrupt handler; `cpl` is the privilege level of the interrupted code. -/
def doIntrClock (s : Sched) (cpl : Int) : Option Sched :=
  let s := { s with jiffies := s.jiffies + 1 }
  (s.modify s.procCurrent fun pr =>
    if cpl ≠ 0 then { pr with utime := pr.utime + 1, counter := pr.counter - 1 }
    else { pr with stime := pr.stime + 1, counter := pr.counter - 1 }).bind fun s =>
  (s.proc s.procCurrent).bind fun cur =>
    if cur.counter > 0 then some s
    else
      (s.modify s.procCurrent fun pr => { pr with counter := 0 }).bind fun s =>
        if cpl = 0 then some s else s.schedule

/-! ## `proc_init` -/

/-- `INIT_PROC_DATA` with the `pid` of slot `i`, and the types set by `PROC_INIT`. -/
def initProcs (i : Int) : Option ProcStruct :=
  if 0 ≤ i ∧ i < NR_INIT_PROCS then
    some { procType := if i = PROC_SYSTEM_NR then 1 else 3, state := 0, counter := 0, pid := i,
           utime := 0, stime := 0 }
  else none

/-- The process table and the queues as `proc_init` leaves them. -/
def procInit : Sched where
  proc := initProcs
  links := { next := fun _ => none, head := fun _ => none, tail := fun _ => none }
  procCurrent := PROC_IDLE_NR
  jiffies := 0

end Sched

end Mks
