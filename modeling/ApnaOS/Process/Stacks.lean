import ApnaOS.Process.Frames
import ApnaOS.Process.ScheduleCalls

/-!
# The stack pointers of a PCB

Where the functions of the kernel write them: `yield_syscall` and `fork_syscall` the
pointer into the user stack of their caller, `schedule` the pointer into the kernel
stack of the process it leaves, and a new process gets all of them.
-/

set_option autoImplicit false

namespace ApnaOS.Process

open ApnaOS.Lib
open Function (update update_self update_of_ne update_eq_self)

variable {A : Type}

structure StackPtrs where
  userStackPtr : Nat
  kernelStackBase : Nat
  kernelStackPtr : Nat

def Pcb.stackPtrs (pcb : Pcb) : StackPtrs where
  userStackPtr := pcb.userStackPtr
  kernelStackBase := pcb.kernelStackBase
  kernelStackPtr := pcb.kernelStackPtr

abbrev StackTable := Addr → StackPtrs

def Kernel.stackPtrs (kernel : Kernel A) : StackTable := fun a => (kernel.pcb a).stackPtrs

def saveUser (table : StackTable) (p : Addr) (ebp : Nat) : StackTable :=
  update table p { table p with userStackPtr := ebp }

/-- What `schedule` stores when it leaves `current`. -/
def saveKernel (table : StackTable) (current : Option Addr) (esp : Nat) : StackTable :=
  match current with
  | none => table
  | some p => update table p { table p with kernelStackPtr := esp }

section Functions

variable {kernel kernel' : Kernel A} {alloc : Allocator A} {fuel : Nat} {p : Addr}

theorem stackPtrs_modify (kernel : Kernel A) (p : Addr) (change : Pcb → Pcb) :
    (kernel.modify p change).stackPtrs = update kernel.stackPtrs p (change (kernel.pcb p)).stackPtrs := by
  funext a
  rw [Kernel.stackPtrs, pcb_modify]
  by_cases same : a = p
  · rw [if_pos same, same, update_self]
  · rw [if_neg same, update_of_ne same, Kernel.stackPtrs]

theorem stackPtrs_hide (kernel : Kernel A) (p : Addr) (change : Pcb → Pcb)
    (keeps : ∀ pcb, (change pcb).stackPtrs = pcb.stackPtrs) :
    (kernel.modify p change).stackPtrs = kernel.stackPtrs := by
  rw [stackPtrs_modify, keeps]
  exact update_eq_self p kernel.stackPtrs

theorem stackPtrs_setState (kernel : Kernel A) (p : Addr) (state : ProcessState) :
    (kernel.setState p state).stackPtrs = kernel.stackPtrs := stackPtrs_hide kernel p _ fun _ => rfl

theorem stackPtrs_saveUser (kernel : Kernel A) (p : Addr) (ebp : Nat) :
    (kernel.modify p fun pcb => { pcb with userStackPtr := ebp }).stackPtrs =
      saveUser kernel.stackPtrs p ebp := stackPtrs_modify kernel p _

theorem unlinked_stackPtrs : Unlinked Pcb.stackPtrs where
  state := fun _ _ => rfl
  next := fun _ _ => rfl
  nextInTable := fun _ _ => rfl

theorem KeepsField.stackPtrs_eq (keeps : KeepsField Pcb.stackPtrs kernel kernel') :
    kernel'.stackPtrs = kernel.stackPtrs := funext keeps

theorem stackPtrs_saveKernelStackPtr (kernel : Kernel A) (esp : Nat) :
    (saveKernelStackPtr kernel esp).stackPtrs =
      saveKernel kernel.stackPtrs kernel.currentProcess esp := by
  unfold saveKernelStackPtr saveKernel
  cases kernel.currentProcess with
  | none => rfl
  | some p => exact stackPtrs_modify kernel p _

theorem stackPtrs_dispatch (kernel : Kernel A) (esp : Nat) :
    ((dispatch esp kernel).1 = none ∧ (dispatch esp kernel).2.stackPtrs = kernel.stackPtrs) ∨
    ∃ next, (dispatch esp kernel).1 = some next ∧
      (dispatch esp kernel).2.currentProcess = some next ∧
      (dispatch esp kernel).2.stackPtrs = saveKernel kernel.stackPtrs kernel.currentProcess esp := by
  obtain ⟨⟨process, pcb, queue⟩, dequeued⟩ : ∃ r, dequeueProcess kernel.pcb kernel.readyQueue = r :=
    ⟨_, rfl⟩
  have only := dequeueProcess_only kernel.pcb kernel.readyQueue
  rw [dequeued] at only
  have same : ({ kernel with pcb := pcb, readyQueue := queue } : Kernel A).stackPtrs = kernel.stackPtrs :=
    (unlinked_stackPtrs.onlyNext only).stackPtrs_eq
  simp only [dispatch, dequeued]
  cases process with
  | none => exact Or.inl ⟨rfl, same⟩
  | some next =>
      refine Or.inr ⟨next, rfl, rfl, ?_⟩
      have saved := stackPtrs_saveKernelStackPtr
        (({ kernel with pcb := pcb, readyQueue := queue } : Kernel A).setState next .running) esp
      rw [stackPtrs_setState, same] at saved
      dsimp only
      split
      · have adopted := stackPtrs_hide (saveKernelStackPtr
          (({ kernel with pcb := pcb, readyQueue := queue } : Kernel A).setState next .running) esp)
          next (fun pcb => { pcb with isNewChild := false }) fun _ => rfl
        exact adopted.trans saved
      · exact saved

theorem stackPtrs_schedule {esp : Nat} {next : Option Addr}
    (ran : schedule fuel esp kernel = some (next, kernel')) :
    (next = none ∧ kernel'.stackPtrs = kernel.stackPtrs) ∨
    ∃ p, next = some p ∧ kernel'.currentProcess = some p ∧
      kernel'.stackPtrs = saveKernel kernel.stackPtrs kernel.currentProcess esp := by
  obtain ⟨middle, preempted, dispatched⟩ := Option.bind_eq_some_iff.mp ran
  obtain ⟨same, current⟩ := unlinked_stackPtrs.preempt preempted
  have outcome := stackPtrs_dispatch middle esp
  rw [Option.some.inj dispatched, same.stackPtrs_eq, current] at outcome
  exact outcome

end Functions

/-! ## New processes -/

structure ChangesOnly (p : Addr) (kernel kernel' : Kernel A) : Prop where
  current : kernel'.currentProcess = kernel.currentProcess
  others : ∀ a, a ≠ p → kernel'.stackPtrs a = kernel.stackPtrs a

namespace ChangesOnly

variable {kernel middle kernel' : Kernel A} {alloc : Allocator A} {p : Addr}

theorem trans (first : ChangesOnly p kernel middle) (second : ChangesOnly p middle kernel') :
    ChangesOnly p kernel kernel' :=
  ⟨second.current.trans first.current,
    fun a different => (second.others a different).trans (first.others a different)⟩

theorem modify (kernel : Kernel A) (p : Addr) (change : Pcb → Pcb) :
    ChangesOnly p kernel (kernel.modify p change) := by
  refine ⟨rfl, ?_⟩
  intro a different
  rw [stackPtrs_modify, update_of_ne different]

theorem same (pcb : kernel'.stackPtrs = kernel.stackPtrs)
    (current : kernel'.currentProcess = kernel.currentProcess) : ChangesOnly p kernel kernel' :=
  ⟨current, fun a _ => congrFun pcb a⟩

theorem kmalloc (kernel : Kernel A) (alloc : Allocator A) (size : UInt32) (p : Addr) :
    ChangesOnly p kernel (kernel.kmalloc alloc size).2 := same rfl rfl

theorem allocateKernelStack (kernel : Kernel A) (alloc : Allocator A) (p : Addr) :
    ChangesOnly p kernel (allocateKernelStack alloc kernel p) :=
  (kmalloc kernel alloc kernelStackSize p).trans (modify _ p _)

theorem setUpProcess (kernel : Kernel A) (alloc : Allocator A) (p stack pid e : Nat)
    (priority d t : Int) :
    ChangesOnly p kernel (setUpProcess alloc kernel p stack pid e priority d t) := by
  let memory := storeWord (storeWord kernel.memory (stack + 4096 - 4) e) (stack + 4096 - 8) 0
  let named := kernel.modify p fun pcb =>
    { pcb with
      pid := pid, state := .new, priority := priority, deadline := d, timeToRun := t,
      userStackBase := stack + 4096 - 4096 }
  let stacked := ({ named with memory := memory } : Kernel A).modify p fun pcb =>
    { pcb with userStackPtr := stack + 4096 - 8, cr3 := 0, next := none }
  have filled : ChangesOnly p kernel named := modify kernel p _
  have stored : ChangesOnly p named { named with memory := memory } := same rfl rfl
  have complete : ChangesOnly p stacked (Process.allocateKernelStack alloc stacked p) :=
    allocateKernelStack stacked alloc p
  have linked := modify (Process.allocateKernelStack alloc stacked p) p fun pcb =>
    { pcb with nextInTable := (Process.allocateKernelStack alloc stacked p).processTableHead }
  exact (((filled.trans stored).trans (modify _ p _)).trans complete).trans
    (linked.trans (same rfl rfl))

theorem copyCr3 (kernel : Kernel A) (alloc : Allocator A) (parent p : Addr) :
    ChangesOnly p kernel (copyCr3 alloc kernel parent p).2 := by
  unfold Process.copyCr3
  split
  · have mapped := (kmalloc kernel alloc 4096 p).trans (modify _ p fun pcb =>
      { pcb with cr3 := (kernel.kmalloc alloc 4096).1.getD 0 })
    dsimp only
    split
    · exact mapped
    · exact mapped.trans (same rfl rfl)
  · exact same rfl rfl

theorem nameChild (kernel : Kernel A) (parent p : Addr) :
    ChangesOnly p kernel (nameChild kernel parent p) := by
  have counted : ChangesOnly p kernel kernel.getNewPid.2 := same rfl rfl
  exact counted.trans (modify kernel.getNewPid.2 p _)

end ChangesOnly

def Kernel.AtTop (kernel : Kernel A) (p : Addr) : Prop :=
  (kernel.stackPtrs p).kernelStackPtr = (kernel.stackPtrs p).kernelStackBase + 4096

section NewProcesses

variable {kernel kernel' : Kernel A} {alloc : Allocator A} {fuel : Nat}

theorem atTop_allocateKernelStack (kernel : Kernel A) (alloc : Allocator A) (p : Addr) :
    (allocateKernelStack alloc kernel p).AtTop p := by
  have stack := stackPtrs_modify (kernel.kmalloc alloc kernelStackSize).2 p fun pcb =>
    { pcb with
      kernelStackBase := (kernel.kmalloc alloc kernelStackSize).1.getD 0
      kernelStackPtr := (kernel.kmalloc alloc kernelStackSize).1.getD 0 + 4096 }
  have here := congrFun stack p
  rw [update_self] at here
  exact (congrArg StackPtrs.kernelStackPtr here).trans
    (congrArg (StackPtrs.kernelStackBase · + 4096) here).symm

theorem Kernel.AtTop.congr {p : Addr} (top : kernel.AtTop p)
    (same : kernel'.stackPtrs = kernel.stackPtrs) : kernel'.AtTop p := by
  rw [Kernel.AtTop, same]
  exact top

theorem atTop_setUpProcess (kernel : Kernel A) (alloc : Allocator A) (p stack pid e : Nat)
    (priority d t : Int) : (setUpProcess alloc kernel p stack pid e priority d t).AtTop p :=
  (atTop_allocateKernelStack _ alloc p).congr (stackPtrs_hide _ p _ fun _ => rfl)

/-- The PCB that `create_process` or `fork_syscall` takes. -/
def Kernel.nextPcb (kernel : Kernel A) (alloc : Allocator A) : Option Addr :=
  (alloc.kmalloc kernel.allocator pcbSize).1

theorem kmalloc_pcb (kernel : Kernel A) (alloc : Allocator A) :
    kernel.kmalloc alloc pcbSize = (kernel.nextPcb alloc,
      { kernel with allocator := (alloc.kmalloc kernel.allocator pcbSize).2 }) := rfl

/-- What a function does that may make a new process: other stack pointers stay, and
those of the new process are at the top. -/
structure MakesOnly (alloc : Allocator A) (kernel : Kernel A) (process : Option Addr)
    (kernel' : Kernel A) : Prop where
  current : kernel'.currentProcess = kernel.currentProcess
  others : ∀ a, kernel.nextPcb alloc ≠ some a → kernel'.stackPtrs a = kernel.stackPtrs a
  made : ∀ p, process = some p → kernel.nextPcb alloc = some p ∧ kernel'.AtTop p

theorem MakesOnly.nothing {p : Addr} (next : kernel.nextPcb alloc = some p)
    (changes : ChangesOnly p kernel kernel') : MakesOnly alloc kernel none kernel' :=
  ⟨changes.current, fun a other => changes.others a fun same => other (same ▸ next),
    fun _ clash => by cases clash⟩

theorem MakesOnly.process {p : Addr} (next : kernel.nextPcb alloc = some p)
    (changes : ChangesOnly p kernel kernel') (top : kernel'.AtTop p) :
    MakesOnly alloc kernel (some p) kernel' :=
  ⟨changes.current, fun a other => changes.others a fun same => other (same ▸ next),
    fun _ same => Option.some.inj same ▸ ⟨next, top⟩⟩

theorem createProcess_makesOnly {process : Option Addr} {pid e : Nat} {priority d t : Int}
    (ran : createProcess alloc fuel kernel pid e priority d t = some (process, kernel')) :
    MakesOnly alloc kernel process kernel' := by
  rw [createProcess, kmalloc_pcb] at ran
  cases next : kernel.nextPcb alloc with
  | none =>
      simp only [next, Option.some.injEq, Prod.mk.injEq] at ran
      rw [← ran.1, ← ran.2]
      exact ⟨rfl, fun _ _ => rfl, fun _ clash => by cases clash⟩
  | some p =>
      simp only [next] at ran
      have taken := ChangesOnly.kmalloc kernel alloc pcbSize p
      rw [kmalloc_pcb] at taken
      have stacked := taken.trans (.kmalloc _ alloc 4096 p)
      split at ran
      · rename_i given
        rw [given] at stacked
        simp only [Option.some.injEq, Prod.mk.injEq] at ran
        rw [← ran.1, ← ran.2]
        exact .nothing next stacked
      · rename_i stack kernel₁ given
        rw [given] at stacked
        obtain ⟨queued, enqueued, made⟩ := Option.bind_eq_some_iff.mp ran
        simp only [Option.some.injEq, Prod.mk.injEq] at made
        obtain ⟨kept, current⟩ := unlinked_stackPtrs.enqueueReady enqueued
        have same := kept.stackPtrs_eq
        rw [stackPtrs_setState] at same
        rw [← made.1, ← made.2]
        have setUp := stacked.trans (.setUpProcess _ alloc p stack pid e priority d t)
        exact .process next (setUp.trans (.same same current)) ((atTop_setUpProcess ..).congr same)

theorem setUpChild_changesOnly (kernel : Kernel A) (alloc : Allocator A) (parent p stack : Nat) :
    ChangesOnly p kernel (setUpChild alloc kernel parent p stack).2 ∧
      ((setUpChild alloc kernel parent p stack).1 = some () →
        (setUpChild alloc kernel parent p stack).2.AtTop p) := by
  let copied : Kernel A := { kernel with
    memory := copyMemory stack (kernel.pcb parent).userStackBase 4096 kernel.memory }
  let stackPtr := childStackPtr stack (kernel.pcb parent).userStackPtr
    (kernel.pcb parent).userStackBase
  let stacked := copied.modify p fun pcb => { pcb with userStackPtr := stackPtr }
  have start : ChangesOnly p kernel copied := .same rfl rfl
  have mapped := (start.trans (.modify copied p _)).trans (.copyCr3 stacked alloc parent p)
  unfold setUpChild
  dsimp only
  split
  · rename_i given
    rw [given] at mapped
    exact ⟨mapped, fun clash => by cases clash⟩
  · rename_i kernel₁ given
    rw [given] at mapped
    have linked := (mapped.trans (.allocateKernelStack kernel₁ alloc p)).trans
      (.modify _ p fun pcb =>
        { pcb with
          state := .ready, isNewChild := true,
          nextInTable := (allocateKernelStack alloc kernel₁ p).processTableHead })
    refine ⟨linked.trans (.same rfl rfl), fun _ => ?_⟩
    exact (atTop_allocateKernelStack _ alloc p).congr (stackPtrs_hide _ p _ fun _ => rfl)

theorem forkChild_makesOnly {parent : Addr} {child : Option Addr}
    (ran : forkChild alloc fuel kernel parent = some (child, kernel')) :
    MakesOnly alloc kernel child kernel' := by
  rw [forkChild, kmalloc_pcb] at ran
  cases next : kernel.nextPcb alloc with
  | none =>
      simp only [next, Option.some.injEq, Prod.mk.injEq] at ran
      rw [← ran.1, ← ran.2]
      exact ⟨rfl, fun _ _ => rfl, fun _ clash => by cases clash⟩
  | some p =>
      simp only [next] at ran
      have taken := ChangesOnly.kmalloc kernel alloc pcbSize p
      rw [kmalloc_pcb] at taken
      have named : ChangesOnly p kernel (nameChild { kernel with
          allocator := (alloc.kmalloc kernel.allocator pcbSize).2 } parent p) :=
        taken.trans (.nameChild _ parent p)
      have stacked := named.trans (.kmalloc _ alloc 4096 p)
      split at ran
      · rename_i given
        rw [given] at stacked
        simp only [Option.some.injEq, Prod.mk.injEq] at ran
        rw [← ran.1, ← ran.2]
        exact .nothing next stacked
      · rename_i stack kernel₁ given
        rw [given] at stacked
        obtain ⟨changes, top⟩ := setUpChild_changesOnly kernel₁ alloc parent p stack
        split at ran
        · rename_i given
          rw [given] at changes
          simp only [Option.some.injEq, Prod.mk.injEq] at ran
          rw [← ran.1, ← ran.2]
          exact .nothing next (stacked.trans changes)
        · rename_i given
          rw [given] at changes top
          obtain ⟨queued, enqueued, made⟩ := Option.bind_eq_some_iff.mp ran
          simp only [Option.some.injEq, Prod.mk.injEq] at made
          obtain ⟨kept, current⟩ := unlinked_stackPtrs.enqueueReady enqueued
          have same := kept.stackPtrs_eq
          rw [← made.1, ← made.2]
          exact .process next ((stacked.trans changes).trans (.same same current))
            ((top rfl).congr same)

theorem forkSyscall_makesOnly {ebp : Nat} {parent : Addr} {child : Option Addr}
    (ran : forkSyscall alloc fuel ebp kernel parent = some (child, kernel')) :
    kernel'.currentProcess = kernel.currentProcess ∧
      (∀ a, kernel.nextPcb alloc ≠ some a →
        kernel'.stackPtrs a = saveUser kernel.stackPtrs parent ebp a) ∧
      ∀ p, child = some p → kernel'.AtTop p := by
  have makes := forkChild_makesOnly ran
  refine ⟨makes.current, ?_, fun p same => (makes.made p same).2⟩
  intro a other
  rw [makes.others a other, stackPtrs_saveUser]

end NewProcesses

/-! ## One step of the machine -/

/-- The frame that `yield_syscall` saves in the step. -/
def Action.frame : Action → Option Nat
  | .yield ebp _ | .wait ebp _ | .stateExit ebp _ => some ebp
  | _ => none

namespace Machine

variable {machine next : Machine A} {action : Action} {kernel : Kernel A} {alloc : Allocator A}

/-- The stack pointers at a call of `schedule`. -/
def stackPtrsAtCall (machine : Machine A) (action : Action) : StackTable :=
  match action.frame, machine.caller with
  | some ebp, some p => saveUser machine.kernel.stackPtrs p ebp
  | _, _ => machine.kernel.stackPtrs

theorem scheduleCall_stackPtrs (called : machine.scheduleCall action = some kernel) :
    kernel.currentProcess = machine.kernel.currentProcess ∧
      kernel.stackPtrs = machine.stackPtrsAtCall action := by
  cases action with
  | createProcess | fork | resume => cases called
  | start esp =>
      simp only [scheduleCall, Option.ite_none_right_eq_some, Option.some.injEq] at called
      rw [← called.2]
      exact ⟨rfl, rfl⟩
  | yield ebp esp =>
      obtain ⟨p, caller, same⟩ := Option.bind_eq_some_iff.mp called
      rw [← Option.some.inj same]
      refine ⟨rfl, ?_⟩
      simp only [stackPtrsAtCall, Action.frame, caller]
      exact stackPtrs_saveUser machine.kernel p ebp
  | wait ebp esp =>
      obtain ⟨p, caller, called⟩ := Option.bind_eq_some_iff.mp called
      obtain ⟨⟨zombieChild, found⟩, ran, same⟩ := Option.bind_eq_some_iff.mp called
      obtain ⟨kept, current⟩ := unlinked_stackPtrs.findZombie ran
      have stackPtrs := kept.stackPtrs_eq
      cases zombieChild with
      | some child => cases same
      | none =>
          rw [← Option.some.inj same]
          refine ⟨current, ?_⟩
          simp only [stackPtrsAtCall, Action.frame, caller]
          rw [stackPtrs_saveUser, stackPtrs_setState, stackPtrs]
  | exit status esp =>
      obtain ⟨p, caller, woken⟩ := Option.bind_eq_some_iff.mp called
      obtain ⟨kept, current⟩ := unlinked_stackPtrs.wakeParent woken
      have stackPtrs := kept.stackPtrs_eq
      refine ⟨current, stackPtrs.trans ?_⟩
      exact stackPtrs_hide machine.kernel p _ fun _ => rfl
  | stateExit ebp esp =>
      obtain ⟨p, caller, same⟩ := Option.bind_eq_some_iff.mp called
      rw [← Option.some.inj same]
      refine ⟨rfl, ?_⟩
      simp only [stackPtrsAtCall, Action.frame, caller]
      rw [stackPtrs_saveUser, stackPtrs_setState]

/-- A step that calls `schedule`: with nobody ready the CPU goes to the CLI and nothing is
stored, else the process that is left gets `esp`. -/
theorem step_switch (called : machine.scheduleCall action = some kernel)
    (taken : machine.step alloc action = some next) :
    (next.control.inCli = true ∧ next.kernel.stackPtrs = machine.stackPtrsAtCall action) ∨
    ∃ p, next.control.inCli = false ∧ next.kernel.currentProcess = some p ∧
      next.kernel.stackPtrs = saveKernel (machine.stackPtrsAtCall action)
        machine.kernel.currentProcess action.esp := by
  obtain ⟨control, step⟩ := @Machine.step_of_scheduleCall _ machine alloc action kernel called
  obtain ⟨current, stackPtrs⟩ := scheduleCall_stackPtrs called
  rw [taken] at step
  obtain ⟨⟨given, kernel'⟩, ran, same⟩ := Option.map_eq_some_iff.mp step.symm
  rw [← same, ← current, ← stackPtrs]
  rcases stackPtrs_schedule ran with ⟨nobody, kept⟩ | ⟨p, somebody, dispatched, saved⟩
  · rw [nobody]
    exact Or.inl ⟨rfl, kept⟩
  · rw [somebody]
    exact Or.inr ⟨p, rfl, dispatched, saved⟩

/-- What a step without a call of `schedule` does to the stack pointers: at most its
caller gets a new frame, and those of a new process are at the top. -/
structure Quiet (alloc : Allocator A) (machine next : Machine A) : Prop where
  current : next.kernel.currentProcess = machine.kernel.currentProcess
  inCli : next.control.inCli = machine.control.inCli
  others : ∀ a, machine.kernel.nextPcb alloc ≠ some a → ∃ user,
    next.kernel.stackPtrs a = { machine.kernel.stackPtrs a with userStackPtr := user } ∧
      (machine.caller ≠ some a → user = (machine.kernel.stackPtrs a).userStackPtr)
  made : ∀ p, next.control.born = p :: machine.control.born → next.kernel.AtTop p

theorem Quiet.same {control : Control} (current : kernel.currentProcess = machine.kernel.currentProcess)
    (inCli : control.inCli = machine.control.inCli)
    (stackPtrs : kernel.stackPtrs = machine.kernel.stackPtrs)
    (born : control.born = machine.control.born) : Quiet alloc machine ⟨kernel, control⟩ := by
  refine ⟨current, inCli, ?_, ?_⟩
  · intro a _
    exact ⟨_, congrFun stackPtrs a, fun _ => rfl⟩
  · intro p longer
    have lengths := congrArg List.length (born.symm.trans longer)
    simp at lengths

theorem step_quiet (uncalled : machine.scheduleCall action = none)
    (taken : machine.step alloc action = some next) : Quiet alloc machine next := by
  cases action with
  | createProcess e priority d t =>
      have enabled := enabled_of_step taken
      rw [Machine.Enabled] at enabled
      simp only [Machine.step, enabled, if_true, Kernel.getNewPid] at taken
      obtain ⟨⟨process, kernel'⟩, ran, same⟩ := Option.bind_eq_some_iff.mp taken
      have makes := createProcess_makesOnly ran
      cases process with
      | none =>
          rw [← Option.some.inj same]
          refine ⟨makes.current, rfl, fun a other => ⟨_, makes.others a other, fun _ => rfl⟩, ?_⟩
          intro p longer
          have lengths := congrArg List.length longer
          simp at lengths
      | some p =>
          rw [← Option.some.inj same]
          refine ⟨makes.current, rfl, fun a other => ⟨_, makes.others a other, fun _ => rfl⟩, ?_⟩
          intro q born
          rw [← (List.cons.inj born).1]
          exact (makes.made p rfl).2
  | start esp =>
      have enabled : machine.control.inCli = true := enabled_of_step taken
      simp [Machine.scheduleCall, enabled] at uncalled
  | fork ebp =>
      obtain ⟨p, caller, taken⟩ := Option.bind_eq_some_iff.mp taken
      obtain ⟨⟨child, kernel'⟩, ran, same⟩ := Option.bind_eq_some_iff.mp taken
      obtain ⟨current, others, made⟩ := forkSyscall_makesOnly ran
      have framed : ∀ a, machine.kernel.nextPcb alloc ≠ some a → ∃ user,
          kernel'.stackPtrs a = { machine.kernel.stackPtrs a with userStackPtr := user } ∧
            (machine.caller ≠ some a → user = (machine.kernel.stackPtrs a).userStackPtr) := by
        intro a other
        rw [others a other, saveUser]
        by_cases here : a = p
        · rw [here, update_self]
          exact ⟨ebp, rfl, fun differs => absurd caller differs⟩
        · rw [update_of_ne here]
          exact ⟨_, rfl, fun _ => rfl⟩
      cases child with
      | none =>
          rw [← Option.some.inj same]
          refine ⟨current, rfl, framed, ?_⟩
          intro q longer
          have lengths := congrArg List.length longer
          simp at lengths
      | some child =>
          rw [← Option.some.inj same]
          refine ⟨current, rfl, framed, ?_⟩
          intro q born
          rw [← (List.cons.inj born).1]
          exact made child rfl
  | yield ebp esp | stateExit ebp esp =>
      obtain ⟨p, caller, _⟩ := Option.bind_eq_some_iff.mp taken
      simp [Machine.scheduleCall, caller] at uncalled
  | wait ebp esp =>
      obtain ⟨p, caller, taken⟩ := Option.bind_eq_some_iff.mp taken
      obtain ⟨⟨outcome, kernel'⟩, waited, same⟩ := Option.bind_eq_some_iff.mp taken
      obtain ⟨⟨zombieChild, kernel₁⟩, ran, waited⟩ := Option.bind_eq_some_iff.mp waited
      cases zombieChild with
      | none =>
          simp [Machine.scheduleCall, caller, ran] at uncalled
      | some child =>
          obtain ⟨kept, current⟩ := unlinked_stackPtrs.findZombie ran
          have stackPtrs := kept.stackPtrs_eq
          simp only [Option.some.injEq, Prod.mk.injEq] at waited
          rw [← waited.1, ← waited.2] at same
          rw [← Option.some.inj same]
          exact .same current rfl stackPtrs rfl
  | resume =>
      obtain ⟨p, resumer, taken⟩ := Option.bind_eq_some_iff.mp taken
      obtain ⟨⟨result, kernel'⟩, waited, same⟩ := Option.bind_eq_some_iff.mp taken
      obtain ⟨⟨zombieChild, kernel₁⟩, ran, waited⟩ := Option.bind_eq_some_iff.mp waited
      obtain ⟨kept, current⟩ := unlinked_stackPtrs.findZombie ran
      have stackPtrs := kept.stackPtrs_eq
      rw [← Option.some.inj same]
      cases zombieChild with
      | none =>
          simp only [Option.some.injEq, Prod.mk.injEq] at waited
          rw [← waited.2]
          exact .same current rfl stackPtrs rfl
      | some child =>
          have freed : kernel' = kernel₁.kfree alloc (some child) :=
            (congrArg Prod.snd (Option.some.inj waited)).symm
          rw [freed]
          exact .same current rfl stackPtrs rfl
  | exit status esp =>
      obtain ⟨p, caller, taken⟩ := Option.bind_eq_some_iff.mp taken
      obtain ⟨_, exited, _⟩ := Option.bind_eq_some_iff.mp taken
      obtain ⟨woken, ran, _⟩ := Option.bind_eq_some_iff.mp exited
      simp [Machine.scheduleCall, caller, ran] at uncalled

end Machine

end ApnaOS.Process
