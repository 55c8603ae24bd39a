import ApnaOS.Process.Pcb

/-!
# The process functions of the kernel

`process.c` and `syscall.c` over one kernel state.  The values of the machine's
registers that the code saves (`ebp`, `esp`) are arguments.  The allocator is a
parameter, so that it can be the heap of `memory.c` or one that gives out every
address once.  PCBs and the bytes of stacks are kept apart.
-/

set_option autoImplicit false

namespace ApnaOS.Process

open Function (update)

/-- `kmalloc` and `kfree` on an allocator state; `none` is NULL. -/
structure Allocator (A : Type) where
  kmalloc : A → UInt32 → Option Addr × A
  kfree : A → Option Addr → A

structure Kernel (A : Type) where
  allocator : A
  pcb : PcbMemory
  memory : Nat → UInt8
  currentProcess : Option Addr
  readyQueue : ProcessQueue
  processTableHead : Option Addr
  /-- `next_pid` before reduction modulo 2^32. -/
  nextPid : Nat
  /-- The word that reading `pid` through a NULL pointer gives. -/
  pidAtNull : Nat

def wordRange : Nat := 4294967296

def pcbSize : UInt32 := 92
def kernelStackSize : UInt32 := 4096

def asInt (word : Nat) : Int :=
  if word < 2147483648 then word else (word : Int) - 4294967296

def storeWord (memory : Nat → UInt8) (address word : Nat) : Nat → UInt8 :=
  let memory := update memory address (UInt8.ofNat word)
  let memory := update memory (address + 1) (UInt8.ofNat (word / 256))
  let memory := update memory (address + 2) (UInt8.ofNat (word / 65536))
  update memory (address + 3) (UInt8.ofNat (word / 16777216))

def copyMemory (dest src : Nat) : (size : Nat) → (Nat → UInt8) → Nat → UInt8
  | 0, memory => memory
  | size + 1, memory =>
      let memory := copyMemory dest src size memory
      update memory (dest + size) (memory (src + size))

def copyPageTables (parentCr3 childCr3 : Nat) (memory : Nat → UInt8) : Nat → UInt8 :=
  copyMemory childCr3 parentCr3 4096 memory

namespace Kernel

variable {A : Type}

def kmalloc (kernel : Kernel A) (alloc : Allocator A) (size : UInt32) : Option Addr × Kernel A :=
  let (ptr, allocator) := alloc.kmalloc kernel.allocator size
  (ptr, { kernel with allocator := allocator })

def kfree (kernel : Kernel A) (alloc : Allocator A) (ptr : Option Addr) : Kernel A :=
  { kernel with allocator := alloc.kfree kernel.allocator ptr }

def modify (kernel : Kernel A) (p : Addr) (change : Pcb → Pcb) : Kernel A :=
  { kernel with pcb := kernel.pcb.modify p change }

def setState (kernel : Kernel A) (p : Addr) (state : ProcessState) : Kernel A :=
  kernel.modify p fun process => { process with state := state }

def enqueueReady (kernel : Kernel A) (fuel : Nat) (p : Addr) : Option (Kernel A) := do
  let (pcb, queue) ← enqueueProcess fuel kernel.pcb kernel.readyQueue p
  some { kernel with pcb := pcb, readyQueue := queue }

def getNewPid (kernel : Kernel A) : Nat × Kernel A :=
  (kernel.nextPid % wordRange, { kernel with nextPid := kernel.nextPid + 1 })

/-- `process->pid` through a pointer that may be NULL. -/
def pidOf (kernel : Kernel A) : Option Addr → Nat
  | none => kernel.pidAtNull
  | some p => (kernel.pcb p).pid

end Kernel

variable {A : Type}

/-! ## process.c -/

def allocateKernelStack (alloc : Allocator A) (kernel : Kernel A) (process : Addr) : Kernel A :=
  let (stack, kernel) := kernel.kmalloc alloc kernelStackSize
  kernel.modify process fun pcb =>
    { pcb with kernelStackBase := stack.getD 0, kernelStackPtr := stack.getD 0 + 4096 }

/-- The first half of `schedule`: the running process goes back to the queue. -/
def preempt (fuel : Nat) (kernel : Kernel A) : Option (Kernel A) :=
  match kernel.currentProcess with
  | none => some kernel
  | some current =>
      if (kernel.pcb current).state = .running then
        (kernel.setState current .ready).enqueueReady fuel current
      else some kernel

def saveKernelStackPtr (kernel : Kernel A) (esp : Nat) : Kernel A :=
  match kernel.currentProcess with
  | none => kernel
  | some current => kernel.modify current fun pcb => { pcb with kernelStackPtr := esp }

/-- The second half of `schedule`: the process the CPU is given to, or `none` when the
queue is empty and the CPU goes to `cli_loop`. -/
def dispatch (esp : Nat) (kernel : Kernel A) : Option Addr × Kernel A :=
  let (nextProcess, pcb, queue) := dequeueProcess kernel.pcb kernel.readyQueue
  let kernel := { kernel with pcb := pcb, readyQueue := queue }
  match nextProcess with
  | none => (none, kernel)
  | some next =>
      let kernel := kernel.setState next .running
      let kernel := saveKernelStackPtr kernel esp
      let kernel :=
        if (kernel.pcb next).isNewChild then
          kernel.modify next fun pcb => { pcb with isNewChild := false }
        else kernel
      (some next, { kernel with currentProcess := some next })

def schedule (fuel esp : Nat) (kernel : Kernel A) : Option (Option Addr × Kernel A) := do
  let kernel ← preempt fuel kernel
  some (dispatch esp kernel)

/-- `create_process` between the allocation of the stack and the queue: the PCB is
filled in and becomes the head of the table. -/
def setUpProcess (alloc : Allocator A) (kernel : Kernel A) (newProcess stack pid entryPoint : Nat)
    (priority deadline timeToRun : Int) : Kernel A :=
  let stackTop := stack + 4096
  let kernel := kernel.modify newProcess fun pcb =>
    { pcb with
      pid := pid, state := .new, priority := priority, deadline := deadline,
      timeToRun := timeToRun, userStackBase := stackTop - 4096 }
  let memory := storeWord kernel.memory (stackTop - 4) entryPoint
  let memory := storeWord memory (stackTop - 8) 0
  let kernel := { kernel with memory := memory }
  let kernel := kernel.modify newProcess fun pcb =>
    { pcb with userStackPtr := stackTop - 8, cr3 := 0, next := none }
  let kernel := allocateKernelStack alloc kernel newProcess
  let kernel := kernel.modify newProcess fun pcb =>
    { pcb with nextInTable := kernel.processTableHead }
  { kernel with processTableHead := some newProcess }

/-- `create_process`: the PCB returned (`none` is NULL). -/
def createProcess (alloc : Allocator A) (fuel : Nat) (kernel : Kernel A) (pid entryPoint : Nat)
    (priority deadline timeToRun : Int) : Option (Option Addr × Kernel A) :=
  match kernel.kmalloc alloc pcbSize with
  | (none, kernel) => some (none, kernel)
  | (some newProcess, kernel) =>
      match kernel.kmalloc alloc 4096 with
      | (none, kernel) => some (none, kernel)
      | (some stack, kernel) => do
          let kernel :=
            setUpProcess alloc kernel newProcess stack pid entryPoint priority deadline timeToRun
          let kernel := kernel.setState newProcess .ready
          let kernel ← kernel.enqueueReady fuel newProcess
          some (some newProcess, kernel)

/-! ## syscall.c -/

def unlinkAfter (kernel : Kernel A) (prev : Option Addr) (child : Addr) : Kernel A :=
  let after := (kernel.pcb child).nextInTable
  match prev with
  | none => { kernel with processTableHead := after }
  | some prev => kernel.modify prev fun pcb => { pcb with nextInTable := after }

/-- The loop of `find_zombie_child`: the child found and taken out of the table. -/
def findZombie (kernel : Kernel A) (parent : Addr) :
    (fuel : Nat) → (prev current : Option Addr) → Option (Option Addr × Kernel A)
  | 0, _, _ => none
  | _ + 1, _, none => some (none, kernel)
  | fuel + 1, prev, some current =>
      if kernel.pidOf (kernel.pcb current).parent = (kernel.pcb parent).pid ∧
          (kernel.pcb current).state = .zombie then
        some (some current, unlinkAfter kernel prev current)
      else findZombie kernel parent fuel (some current) (kernel.pcb current).nextInTable

def findZombieChild (fuel : Nat) (kernel : Kernel A) (parent : Addr) :
    Option (Option Addr × Kernel A) :=
  findZombie kernel parent fuel none kernel.processTableHead

def yieldSyscall (fuel ebp esp : Nat) (kernel : Kernel A) (proc : Addr) :
    Option (Option Addr × Kernel A) :=
  let kernel := kernel.modify proc fun pcb => { pcb with userStackPtr := ebp }
  schedule fuel esp kernel

def nameChild (kernel : Kernel A) (parent child : Addr) : Kernel A :=
  let (pid, kernel) := kernel.getNewPid
  kernel.modify child fun pcb =>
    { pcb with pid := pid, parent := some parent, priority := (kernel.pcb parent).priority }

/-- `child->user_stack_ptr`, in 32-bit arithmetic. -/
def childStackPtr (childStackBase parentStackPtr parentStackBase : Nat) : Nat :=
  let stackOffset := (parentStackPtr + wordRange - parentStackBase) % wordRange
  (childStackBase + stackOffset) % wordRange

/-- The page table of a forked child: the new `cr3`, or `none` when there is no
memory for it.  A parent without one leaves the child's field as it was. -/
def copyCr3 (alloc : Allocator A) (kernel : Kernel A) (parent child : Addr) :
    Option Unit × Kernel A :=
  if (kernel.pcb parent).cr3 ≠ 0 then
    let (table, kernel) := kernel.kmalloc alloc 4096
    let kernel := kernel.modify child fun pcb => { pcb with cr3 := table.getD 0 }
    match table with
    | none => (none, kernel)
    | some table =>
        let memory := copyPageTables (kernel.pcb parent).cr3 table kernel.memory
        (some (), { kernel with memory := memory })
  else (some (), kernel)

/-- `fork_syscall` between the allocation of the stack and the queue: the child gets
its stack, its page table and its kernel stack, and becomes the head of the table. -/
def setUpChild (alloc : Allocator A) (kernel : Kernel A) (parent child childStackBase : Addr) :
    Option Unit × Kernel A :=
  let memory := copyMemory childStackBase (kernel.pcb parent).userStackBase 4096 kernel.memory
  let kernel := { kernel with memory := memory }
  let stackPtr := childStackPtr childStackBase (kernel.pcb parent).userStackPtr
    (kernel.pcb parent).userStackBase
  let kernel := kernel.modify child fun pcb => { pcb with userStackPtr := stackPtr }
  match copyCr3 alloc kernel parent child with
  | (none, kernel) => (none, kernel)
  | (some (), kernel) =>
      let kernel := allocateKernelStack alloc kernel child
      let kernel := kernel.modify child fun pcb =>
        { pcb with
          state := .ready, isNewChild := true, nextInTable := kernel.processTableHead }
      (some (), { kernel with processTableHead := some child })

def forkChild (alloc : Allocator A) (fuel : Nat) (kernel : Kernel A) (parent : Addr) :
    Option (Option Addr × Kernel A) :=
  match kernel.kmalloc alloc pcbSize with
  | (none, kernel) => some (none, kernel)
  | (some child, kernel) =>
      let kernel := nameChild kernel parent child
      match kernel.kmalloc alloc 4096 with
      | (none, kernel) => some (none, kernel)
      | (some childStackBase, kernel) =>
          match setUpChild alloc kernel parent child childStackBase with
          | (none, kernel) => some (none, kernel)
          | (some (), kernel) => do
              let kernel ← kernel.enqueueReady fuel child
              some (some child, kernel)

/-- `fork_syscall`: the PCB of the child, or `none` when the result is -1. -/
def forkSyscall (alloc : Allocator A) (fuel ebp : Nat) (kernel : Kernel A) (parent : Addr) :
    Option (Option Addr × Kernel A) :=
  forkChild alloc fuel (kernel.modify parent fun pcb => { pcb with userStackPtr := ebp }) parent

/-- What a call of `wait_syscall` returns, what it stores in `*status` when
`status` is not NULL, and the PCB it freed. -/
structure WaitResult where
  value : Int
  status : Option Int
  reaped : Option Addr

def reap (alloc : Allocator A) (kernel : Kernel A) (zombieChild : Addr) : WaitResult × Kernel A :=
  let status := (kernel.pcb zombieChild).exitStatus
  let childPid := (kernel.pcb zombieChild).pid
  (⟨asInt childPid, some status, some zombieChild⟩, kernel.kfree alloc (some zombieChild))

/-- A call of `wait_syscall` returns at once, or it suspends its caller and the CPU
goes elsewhere. -/
inductive WaitOutcome where
  | returned (result : WaitResult)
  | suspended (next : Option Addr)

/-- `wait_syscall` up to its return or to the end of its `yield_syscall`. -/
def waitSyscall (alloc : Allocator A) (fuel ebp esp : Nat) (kernel : Kernel A) (parent : Addr) :
    Option (WaitOutcome × Kernel A) := do
  let (zombieChild, kernel) ← findZombieChild fuel kernel parent
  match zombieChild with
  | some zombieChild =>
      let (result, kernel) := reap alloc kernel zombieChild
      some (.returned result, kernel)
  | none =>
      let kernel := kernel.setState parent .blocked
      let (next, kernel) ← yieldSyscall fuel ebp esp kernel parent
      some (.suspended next, kernel)

/-- `wait_syscall` from the return of its `yield_syscall` on. -/
def waitResumed (alloc : Allocator A) (fuel : Nat) (kernel : Kernel A) (parent : Addr) :
    Option (WaitResult × Kernel A) := do
  let (zombieChild, kernel) ← findZombieChild fuel kernel parent
  match zombieChild with
  | some zombieChild => some (reap alloc kernel zombieChild)
  | none => some (⟨-1, none, none⟩, kernel)

/-- `if (proc->parent != NULL && proc->parent->state == STATE_BLOCKED)` the parent
becomes ready. -/
def wakeParent (fuel : Nat) (kernel : Kernel A) (proc : Addr) : Option (Kernel A) :=
  match (kernel.pcb proc).parent with
  | none => some kernel
  | some parent =>
      if (kernel.pcb parent).state = .blocked then
        (kernel.setState parent .ready).enqueueReady fuel parent
      else some kernel

def exitSyscall (fuel esp : Nat) (kernel : Kernel A) (proc : Addr) (status : Int) :
    Option (Option Addr × Kernel A) := do
  let kernel := kernel.modify proc fun pcb => { pcb with exitStatus := status, state := .zombie }
  let kernel ← wakeParent fuel kernel proc
  schedule fuel esp kernel

/-- `current_process->state = STATE_EXIT; yield_syscall();` -/
def stateExit (fuel ebp esp : Nat) (kernel : Kernel A) (proc : Addr) :
    Option (Option Addr × Kernel A) :=
  yieldSyscall fuel ebp esp (kernel.setState proc .exit) proc

end ApnaOS.Process
