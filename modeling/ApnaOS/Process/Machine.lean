import ApnaOS.Lib.Transition
import ApnaOS.Process.Kernel

/-!
# Runs of the process system

Who has the CPU, and what it may do next.  The CLI creates processes and starts the
scheduler; a running process makes system calls in any order.  A process suspended
inside `wait_syscall` goes on there when it is dispatched again.  The history of a
run is recorded, the latest event first.
-/

set_option autoImplicit false

namespace ApnaOS.Process

open ApnaOS.Lib
open Function (update)

inductive Event where
  | created (p : Addr)
  | forked (parent child : Addr) (pid : Int)
  | exited (p : Addr) (status : Int)
  | waitReturned (p : Addr) (resumed : Bool) (result : WaitResult)

def Event.born : Event → Option Addr
  | .created p => some p
  | .forked _ child _ => some child
  | _ => none

def Event.reaped : Event → Option Addr
  | .waitReturned _ _ result => result.reaped
  | _ => none

structure Control where
  /-- The CPU is in `cli_loop` and in no process. -/
  inCli : Bool
  /-- The process is inside `wait_syscall`. -/
  inWait : Addr → Bool
  history : List Event

namespace Control

def born (control : Control) : List Addr := control.history.filterMap Event.born

def reaped (control : Control) : List Addr := control.history.filterMap Event.reaped

def caller (control : Control) (current : Option Addr) : Option Addr :=
  if control.inCli then none else current.filter fun p => !control.inWait p

/-- The running process when it has to go on inside `wait_syscall`. -/
def resumer (control : Control) (current : Option Addr) : Option Addr :=
  if control.inCli then none else current.filter control.inWait

/-- `next` is what `schedule` gave the CPU to. -/
def switch (control : Control) (next : Option Addr) : Control :=
  { control with inCli := next.isNone }

def setInWait (control : Control) (p : Addr) (inWait : Bool) : Control :=
  { control with inWait := update control.inWait p inWait }

def log (control : Control) (event : Event) : Control :=
  { control with history := event :: control.history }

end Control

structure Machine (A : Type) where
  kernel : Kernel A
  control : Control

/-- The arguments `ebp` and `esp` are what the code finds in these registers. -/
inductive Action where
  | createProcess (entryPoint : Nat) (priority deadline timeToRun : Int)
  | start (esp : Nat)
  | fork (ebp : Nat)
  | yield (ebp esp : Nat)
  | wait (ebp esp : Nat)
  | resume
  | exit (status : Int) (esp : Nat)
  | stateExit (ebp esp : Nat)

namespace Machine

variable {A : Type}

def caller (machine : Machine A) : Option Addr :=
  machine.control.caller machine.kernel.currentProcess

def resumer (machine : Machine A) : Option Addr :=
  machine.control.resumer machine.kernel.currentProcess

/-- Enough iterations for every loop: there are no more processes than events. -/
def fuel (machine : Machine A) : Nat := machine.control.history.length + 1

/-- Whoever has the CPU may take the action. -/
def Enabled (machine : Machine A) : Action → Prop
  | .createProcess .. => machine.control.inCli = true ∨ machine.caller.isSome = true
  | .start _ => machine.control.inCli = true
  | .resume => machine.resumer.isSome = true
  | _ => machine.caller.isSome = true

/-- One step; every caller of `create_process` takes the pid from `get_new_pid`. -/
def step (alloc : Allocator A) (machine : Machine A) : Action → Option (Machine A)
  | .createProcess entryPoint priority deadline timeToRun =>
      if machine.control.inCli = true ∨ machine.caller.isSome = true then do
        let (pid, kernel) := machine.kernel.getNewPid
        let (process, kernel) ←
          createProcess alloc machine.fuel kernel pid entryPoint priority deadline timeToRun
        match process with
        | none => some ⟨kernel, machine.control⟩
        | some p => some ⟨kernel, machine.control.log (.created p)⟩
      else none
  | .start esp =>
      if machine.control.inCli then do
        let (next, kernel) ← schedule machine.fuel esp machine.kernel
        some ⟨kernel, machine.control.switch next⟩
      else none
  | .fork ebp => do
      let p ← machine.caller
      let (child, kernel) ← forkSyscall alloc machine.fuel ebp machine.kernel p
      match child with
      | none => some ⟨kernel, machine.control⟩
      | some child =>
          some ⟨kernel, machine.control.log (.forked p child (asInt (kernel.pcb child).pid))⟩
  | .yield ebp esp => do
      let p ← machine.caller
      let (next, kernel) ← yieldSyscall machine.fuel ebp esp machine.kernel p
      some ⟨kernel, machine.control.switch next⟩
  | .wait ebp esp => do
      let p ← machine.caller
      let (outcome, kernel) ← waitSyscall alloc machine.fuel ebp esp machine.kernel p
      match outcome with
      | .returned result => some ⟨kernel, machine.control.log (.waitReturned p false result)⟩
      | .suspended next => some ⟨kernel, (machine.control.setInWait p true).switch next⟩
  | .resume => do
      let p ← machine.resumer
      let (result, kernel) ← waitResumed alloc machine.fuel machine.kernel p
      some ⟨kernel, (machine.control.setInWait p false).log (.waitReturned p true result)⟩
  | .exit status esp => do
      let p ← machine.caller
      let (next, kernel) ← exitSyscall machine.fuel esp machine.kernel p status
      some ⟨kernel, (machine.control.switch next).log (.exited p status)⟩
  | .stateExit ebp esp => do
      let p ← machine.caller
      let (next, kernel) ← stateExit machine.fuel ebp esp machine.kernel p
      some ⟨kernel, machine.control.switch next⟩

/-- After `init_process_management`, with memory for PCBs filled with zeros. -/
structure Initial (machine : Machine A) : Prop where
  pcb : machine.kernel.pcb = fun _ => Pcb.zero
  current : machine.kernel.currentProcess = none
  queue : machine.kernel.readyQueue = initializeQueue
  table : machine.kernel.processTableHead = none
  pid : machine.kernel.nextPid = 1
  control : machine.control = ⟨true, fun _ => false, []⟩

end Machine

def processSystem {A : Type} (alloc : Allocator A) : System (Machine A) Action where
  initial := Machine.Initial
  step := Machine.step alloc

end ApnaOS.Process
