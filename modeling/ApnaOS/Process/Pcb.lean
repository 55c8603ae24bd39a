import Mathlib.Logic.Function.Basic
import ApnaOS.Process.RbTree

/-!
# Process control blocks and the linked queues

`process.h` and the queue functions of `process.c`.  A PCB keeps the fields that
the process functions use; the CFS fields live in the tree of `rbtree.c`.
Pointers to PCBs are `none` for NULL, stack addresses are numbers.  Loops take
the number of iterations they may make.
-/

set_option autoImplicit false

namespace ApnaOS.Process

open Function (update)

inductive ProcessState where
  | ready
  | running
  | blocked
  | new
  | exit
  | zombie
  deriving DecidableEq

structure Pcb where
  pid : Nat
  state : ProcessState
  userStackPtr : Nat
  cr3 : Nat
  priority : Int
  deadline : Int
  timeToRun : Int
  next : Option Addr
  nextInTable : Option Addr
  parent : Option Addr
  exitStatus : Int
  isNewChild : Bool
  userStackBase : Nat
  kernelStackBase : Nat
  kernelStackPtr : Nat

def Pcb.zero : Pcb where
  pid := 0
  state := .ready
  userStackPtr := 0
  cr3 := 0
  priority := 0
  deadline := 0
  timeToRun := 0
  next := none
  nextInTable := none
  parent := none
  exitStatus := 0
  isNewChild := false
  userStackBase := 0
  kernelStackBase := 0
  kernelStackPtr := 0

abbrev PcbMemory := Addr → Pcb

def PcbMemory.modify (pcb : PcbMemory) (p : Addr) (change : Pcb → Pcb) : PcbMemory :=
  update pcb p (change (pcb p))

def PcbMemory.setNext (pcb : PcbMemory) (p : Addr) (next : Option Addr) : PcbMemory :=
  pcb.modify p fun process => { process with next := next }

structure ProcessQueue where
  front : Option Addr
  rear : Option Addr

def initializeQueue : ProcessQueue := ⟨none, none⟩

def isQueueEmpty (queue : ProcessQueue) : Bool := queue.front.isNone

/-- The loop of the enqueue functions: the element behind which `process` goes. -/
def insertionPoint (key : Pcb → Int) (pcb : PcbMemory) (process : Addr) :
    (fuel : Nat) → (current : Addr) → Option Addr
  | 0, _ => none
  | fuel + 1, current =>
      match (pcb current).next with
      | some next =>
          if key (pcb next) ≤ key (pcb process) then insertionPoint key pcb process fuel next
          else some current
      | none => some current

/-- The three enqueue functions differ in the field they compare. -/
def enqueueBy (key : Pcb → Int) (fuel : Nat) (pcb : PcbMemory) (queue : ProcessQueue)
    (process : Addr) : Option (PcbMemory × ProcessQueue) :=
  let pcb := pcb.setNext process none
  match queue.front with
  | none => some (pcb, ⟨some process, some process⟩)
  | some front =>
      if key (pcb process) < key (pcb front) then
        some (pcb.setNext process (some front), { queue with front := some process })
      else do
        let current ← insertionPoint key pcb process fuel front
        let pcb := pcb.setNext process (pcb current).next
        let pcb := pcb.setNext current (some process)
        some (pcb, if (pcb process).next = none then { queue with rear := some process }
          else queue)

def enqueueProcess : Nat → PcbMemory → ProcessQueue → Addr → Option (PcbMemory × ProcessQueue) :=
  enqueueBy Pcb.priority

def enqueueProcessEdf :
    Nat → PcbMemory → ProcessQueue → Addr → Option (PcbMemory × ProcessQueue) :=
  enqueueBy Pcb.deadline

def enqueueProcessSjf :
    Nat → PcbMemory → ProcessQueue → Addr → Option (PcbMemory × ProcessQueue) :=
  enqueueBy Pcb.timeToRun

/-- The process returned (`none` is NULL), the PCBs and the queue left. -/
def dequeueProcess (pcb : PcbMemory) (queue : ProcessQueue) :
    Option Addr × PcbMemory × ProcessQueue :=
  match queue.front with
  | none => (none, pcb, queue)
  | some process =>
      let front := (pcb process).next
      let rear := if front = none then none else queue.rear
      (some process, pcb.setNext process none, ⟨front, rear⟩)

end ApnaOS.Process
