import Mathlib.Data.Int.Order.Basic
import ApnaOS.Lib.StableQueue
import ApnaOS.Process.Machine

/-!
# What the process system is for

The abstract model: a list of ready processes in order of dispatch, a list of all
processes, the newest first, and of each process what the others can see of it.
No pointers, no stacks and no loops.
-/

set_option autoImplicit false

namespace ApnaOS.Process

open ApnaOS.Lib
open Function (update)

structure Proc where
  pid : Nat
  state : ProcessState
  priority : Int
  parent : Option Addr
  exitStatus : Int

def Pcb.proc (pcb : Pcb) : Proc where
  pid := pcb.pid
  state := pcb.state
  priority := pcb.priority
  parent := pcb.parent
  exitStatus := pcb.exitStatus

structure Processes where
  ready : List Addr
  table : List Addr
  proc : Addr → Proc
  current : Option Addr
  nextPid : Nat
  pidAtNull : Nat

namespace Processes

def state (processes : Processes) (p : Addr) : ProcessState := (processes.proc p).state

def priority (processes : Processes) (p : Addr) : Int := (processes.proc p).priority

def parent (processes : Processes) (p : Addr) : Option Addr := (processes.proc p).parent

def modify (processes : Processes) (p : Addr) (change : Proc → Proc) : Processes :=
  { processes with proc := update processes.proc p (change (processes.proc p)) }

def setState (processes : Processes) (p : Addr) (state : ProcessState) : Processes :=
  processes.modify p fun proc => { proc with state := state }

/-- Behind all that are not less urgent. -/
def enqueue (processes : Processes) (p : Addr) : Processes :=
  { processes with ready := insertByKey processes.priority p processes.ready }

def preempt (processes : Processes) : Processes :=
  match processes.current with
  | none => processes
  | some p =>
      if processes.state p = .running then (processes.setState p .ready).enqueue p
      else processes

def dispatch (processes : Processes) : Option Addr × Processes :=
  match processes.ready with
  | [] => (none, processes)
  | p :: rest =>
      (some p, { processes.setState p .running with ready := rest, current := some p })

def schedule (processes : Processes) : Option Addr × Processes := processes.preempt.dispatch

def countPid (processes : Processes) : Processes :=
  { processes with nextPid := processes.nextPid + 1 }

def enroll (processes : Processes) (p : Addr) : Processes :=
  { processes with table := p :: processes.table }.setState p .new

def enter (processes : Processes) (p : Addr) : Processes :=
  ((processes.enroll p).setState p .ready).enqueue p

def create (processes : Processes) (p : Addr) (priority : Int) : Processes :=
  (processes.countPid.modify p fun proc =>
    { proc with pid := processes.nextPid % wordRange, priority := priority }).enter p

def forkChild (processes : Processes) (p child : Addr) : Processes :=
  processes.countPid.modify child fun proc =>
    { proc with
      pid := processes.nextPid % wordRange, parent := some p,
      priority := (processes.proc p).priority }

def fork (processes : Processes) (p child : Addr) : Processes :=
  (processes.forkChild p child).enter child

def pidOf (processes : Processes) : Option Addr → Nat
  | none => processes.pidAtNull
  | some p => (processes.proc p).pid

def isZombieChild (processes : Processes) (p child : Addr) : Bool :=
  processes.pidOf (processes.parent child) = (processes.proc p).pid ∧
    processes.state child = .zombie

/-- The newest zombie whose parent has the pid of `p`. -/
def zombieChild (processes : Processes) (p : Addr) : Option Addr :=
  processes.table.find? (processes.isZombieChild p)

def unlink (processes : Processes) (child : Addr) : Processes :=
  { processes with table := processes.table.erase child }

def collected (processes : Processes) (child : Addr) : WaitResult :=
  ⟨asInt (processes.proc child).pid, some (processes.proc child).exitStatus, some child⟩

def wakeParent (processes : Processes) (p : Addr) : Processes :=
  match processes.parent p with
  | none => processes
  | some parent =>
      if processes.state parent = .blocked then (processes.setState parent .ready).enqueue parent
      else processes

def setExitStatus (processes : Processes) (p : Addr) (status : Int) : Processes :=
  processes.modify p fun proc => { proc with exitStatus := status }

def die (processes : Processes) (p : Addr) (status : Int) : Processes :=
  (processes.setExitStatus p status).setState p .zombie

def exit (processes : Processes) (p : Addr) (status : Int) : Processes :=
  (processes.die p status).wakeParent p

end Processes

structure Spec where
  processes : Processes
  control : Control

namespace Spec

def caller (spec : Spec) : Option Addr := spec.control.caller spec.processes.current

def resumer (spec : Spec) : Option Addr := spec.control.resumer spec.processes.current

def reschedule (processes : Processes) (control : Control) : Spec :=
  ⟨processes.schedule.2, control.switch processes.schedule.1⟩

inductive Step (spec : Spec) : Action → Spec → Prop where
  | created {e : Nat} {priority d t : Int} (p : Addr)
      (accepts : spec.control.inCli ∨ spec.caller.isSome) (fresh : p ∉ spec.processes.table) :
      Step spec (.createProcess e priority d t)
        ⟨spec.processes.create p priority, spec.control.log (.created p)⟩
  | notCreated {e : Nat} {priority d t : Int}
      (accepts : spec.control.inCli ∨ spec.caller.isSome) :
      Step spec (.createProcess e priority d t) ⟨spec.processes.countPid, spec.control⟩
  | started {esp : Nat} (inCli : spec.control.inCli) :
      Step spec (.start esp) (reschedule spec.processes spec.control)
  | forked {ebp : Nat} {p : Addr} (child : Addr) (caller : spec.caller = some p)
      (fresh : child ∉ spec.processes.table) :
      Step spec (.fork ebp)
        ⟨spec.processes.fork p child,
          spec.control.log (.forked p child (asInt (spec.processes.nextPid % wordRange)))⟩
  | noChild {ebp : Nat} {p : Addr} (caller : spec.caller = some p) :
      Step spec (.fork ebp) spec
  | lostChild {ebp : Nat} {p : Addr} (child : Addr) (caller : spec.caller = some p)
      (fresh : child ∉ spec.processes.table) :
      Step spec (.fork ebp) ⟨spec.processes.forkChild p child, spec.control⟩
  | yielded {ebp esp : Nat} {p : Addr} (caller : spec.caller = some p) :
      Step spec (.yield ebp esp) (reschedule spec.processes spec.control)
  | collected {ebp esp : Nat} {p child : Addr} (caller : spec.caller = some p)
      (found : spec.processes.zombieChild p = some child) :
      Step spec (.wait ebp esp)
        ⟨spec.processes.unlink child,
          spec.control.log (.waitReturned p false (spec.processes.collected child))⟩
  | suspended {ebp esp : Nat} {p : Addr} (caller : spec.caller = some p)
      (none_found : spec.processes.zombieChild p = none) :
      Step spec (.wait ebp esp)
        (reschedule (spec.processes.setState p .blocked) (spec.control.setInWait p true))
  | resumed {p child : Addr} (resumer : spec.resumer = some p)
      (found : spec.processes.zombieChild p = some child) :
      Step spec .resume
        ⟨spec.processes.unlink child, (spec.control.setInWait p false).log
          (.waitReturned p true (spec.processes.collected child))⟩
  | missed {p : Addr} (resumer : spec.resumer = some p)
      (none_found : spec.processes.zombieChild p = none) :
      Step spec .resume
        ⟨spec.processes,
          (spec.control.setInWait p false).log (.waitReturned p true ⟨-1, none, none⟩)⟩
  | exited {status : Int} {esp : Nat} {p : Addr} (caller : spec.caller = some p) :
      Step spec (.exit status esp)
        (reschedule (spec.processes.exit p status) (spec.control.log (.exited p status)))
  | stateExited {ebp esp : Nat} {p : Addr} (caller : spec.caller = some p) :
      Step spec (.stateExit ebp esp)
        (reschedule (spec.processes.setState p .exit) spec.control)

end Spec

end ApnaOS.Process
