import ApnaOS.Process.Switching

/-!
# Kernel stacks drift

`yield_syscall` loads `esp` from `kernel_stack_ptr`, and `schedule`, one call deeper,
stores `esp` back into it.  Nothing ever moves the pointer up again, so it goes down with
every suspension and leaves the page in the end.
-/

set_option autoImplicit false

namespace ApnaOS.Process

open ApnaOS.Lib
open Function (update update_self update_of_ne)

variable {A : Type}

namespace Kernel

/-- `kernel_stack_base <= kernel_stack_ptr <= kernel_stack_base + 4096` -/
def OnStack (kernel : Kernel A) (p : Addr) : Prop :=
  (kernel.pcb p).kernelStackBase ≤ (kernel.pcb p).kernelStackPtr ∧
    (kernel.pcb p).kernelStackPtr ≤ (kernel.pcb p).kernelStackBase + 4096

/-- It holds of every process that is ready, running or blocked. -/
def StacksBounded (kernel : Kernel A) : Prop :=
  ∀ p, kernel.InTable p → MayWait (kernel.pcb p).state → kernel.OnStack p

end Kernel

/-- A machine, and the bytes of each process's kernel stack that the frames of its suspensions
take. -/
structure Ledger (A : Type) where
  machine : Machine A
  stored : Addr → Nat

/-- An action, and the size of the frame on top of which its call of `schedule` stores `esp`. -/
structure FramedAction where
  action : Action
  frame : Nat

namespace Machine

/-- Whom a call of `schedule` that dispatches leaves. -/
def leaves (machine : Machine A) (action : Action) (next : Machine A) : Option Addr :=
  match machine.scheduleCall action with
  | some _ => if next.control.inCli then none else machine.kernel.currentProcess
  | none => none

end Machine

namespace Ledger

/-- A process that is left has one more frame, and a new process has none. -/
def record (ledger : Ledger A) (framed : FramedAction) (next : Machine A) : Addr → Nat :=
  match ledger.machine.scheduleCall framed.action with
  | some _ =>
      match ledger.machine.leaves framed.action next with
      | some p => update ledger.stored p (ledger.stored p + framed.frame)
      | none => ledger.stored
  | none =>
      match ledger.machine.newborn next with
      | some p => update ledger.stored p 0
      | none => ledger.stored

def step (alloc : Allocator A) (ledger : Ledger A) (framed : FramedAction) : Option (Ledger A) :=
  (ledger.machine.step alloc framed.action).map fun next => ⟨next, ledger.record framed next⟩

end Ledger

def ledgerSystem (alloc : Allocator A) : System (Ledger A) FramedAction where
  initial ledger := ledger.machine.Initial ∧ ledger.stored = fun _ => 0
  step := Ledger.step alloc

/-- What `schedule` stores for a process that is to come back lies a frame of at least the
return address below the `esp` in force, which `yield_syscall` has loaded from
`kernel_stack_ptr`.  A CLI that has been called for want of a ready process runs on that stack
too. -/
def StoresFrame (transition : Transition (Ledger A) FramedAction) : Prop :=
  ∀ p, transition.before.machine.leaves transition.action.action transition.after.machine = some p →
    MayWait (transition.after.machine.kernel.pcb p).state →
      4 ≤ transition.action.frame ∧ transition.action.action.esp + transition.action.frame =
        (transition.before.machine.kernel.pcb p).kernelStackPtr

instance (state : ProcessState) : Decidable (MayWait state) :=
  inferInstanceAs (Decidable (_ ∨ _ ∨ _))

instance (transition : Transition (Ledger A) FramedAction) : Decidable (StoresFrame transition) :=
  inferInstanceAs (Decidable (∀ p ∈ transition.before.machine.leaves _ _, _ → _))

/-- When a call of `schedule` dispatches and leaves a process that is to come back, the frame
fits on the stack of that process beside those of its earlier suspensions. -/
def HasRoom (ledger : Ledger A) (framed : FramedAction) : Prop :=
  ∀ kernel p, ledger.machine.scheduleCall framed.action = some kernel →
    (∃ q, kernel.Candidate q) → kernel.currentProcess = some p → kernel.InTable p →
      MayWait (kernel.pcb p).state → ledger.stored p + framed.frame ≤ 4096

/-- What is above the pointer of a process that is to come back are its frames. -/
def Ledger.Level (ledger : Ledger A) : Prop :=
  ∀ p, ledger.machine.kernel.InTable p → MayWait (ledger.machine.kernel.pcb p).state →
    (ledger.machine.kernel.pcb p).kernelStackPtr + ledger.stored p =
      (ledger.machine.kernel.pcb p).kernelStackBase + 4096

theorem Ledger.Level.bounded_iff {ledger : Ledger A} (level : ledger.Level) :
    ledger.machine.kernel.StacksBounded ↔ ∀ p, ledger.machine.kernel.InTable p →
      MayWait (ledger.machine.kernel.pcb p).state → ledger.stored p ≤ 4096 := by
  constructor
  · intro bounded p inTable may
    have whole := level p inTable may
    have low := (bounded p inTable may).1
    omega
  · intro fits p inTable may
    have whole := level p inTable may
    have here := fits p inTable may
    constructor
    · omega
    · omega

/-! ## One step -/

section Step

variable {alloc : IsolatingAllocator A} {machine next : Machine A} {action : Action}
  {spec : Spec} {kernel : Kernel A} {p : Addr}

theorem stackPtrsAtCall_kernel (machine : Machine A) (action : Action) (p : Addr) :
    (machine.stackPtrsAtCall action p).kernelStackBase = (machine.kernel.pcb p).kernelStackBase ∧
      (machine.stackPtrsAtCall action p).kernelStackPtr = (machine.kernel.pcb p).kernelStackPtr := by
  unfold Machine.stackPtrsAtCall
  cases action.frame with
  | none => exact ⟨rfl, rfl⟩
  | some ebp =>
      cases machine.caller with
      | none => exact ⟨rfl, rfl⟩
      | some q =>
          dsimp only
          by_cases same : p = q
          · rw [saveUser, same, update_self]
            exact ⟨rfl, rfl⟩
          · rw [saveUser, update_of_ne same]
            exact ⟨rfl, rfl⟩

/-- The kernel stacks after a call of `schedule`. -/
theorem kernelStack_switch (called : machine.scheduleCall action = some kernel)
    (taken : machine.step alloc.toAllocator action = some next) (p : Addr) :
    (next.kernel.pcb p).kernelStackBase = (machine.kernel.pcb p).kernelStackBase ∧
      (next.kernel.pcb p).kernelStackPtr =
        if next.control.inCli = false ∧ machine.kernel.currentProcess = some p then action.esp
        else (machine.kernel.pcb p).kernelStackPtr := by
  obtain ⟨base, ptr⟩ := stackPtrsAtCall_kernel machine action p
  rcases Machine.step_switch called taken with ⟨inCli, stays⟩ | ⟨q, dispatched, _, saved⟩
  · have here := congrFun stays p
    have base' := congrArg StackPtrs.kernelStackBase here
    have ptr' := congrArg StackPtrs.kernelStackPtr here
    rw [inCli]
    exact ⟨base'.trans base, ptr'.trans (ptr.trans (if_neg (by simp)).symm)⟩
  · have here := congrFun saved p
    have base' := congrArg StackPtrs.kernelStackBase here
    have ptr' := congrArg StackPtrs.kernelStackPtr here
    rw [dispatched]
    cases left : machine.kernel.currentProcess with
    | none =>
        rw [left] at base' ptr'
        exact ⟨base'.trans base, ptr'.trans (ptr.trans (if_neg (by simp)).symm)⟩
    | some c =>
        rw [left, saveKernel] at base' ptr'
        by_cases same : p = c
        · rw [same, update_self] at base' ptr'
          rw [same] at base ⊢
          exact ⟨base'.trans base, ptr'.trans (if_pos ⟨rfl, rfl⟩).symm⟩
        · rw [update_of_ne same] at base' ptr'
          refine ⟨base'.trans base, ptr'.trans (ptr.trans (if_neg ?_).symm)⟩
          rintro ⟨_, clash⟩
          exact same (Option.some.inj clash).symm

end Step

theorem ledgerStep_iff {alloc : Allocator A} {ledger after : Ledger A} {framed : FramedAction} :
    (ledgerSystem alloc).step ledger framed = some after ↔
    ledger.machine.step alloc framed.action = some after.machine ∧
      after.stored = ledger.record framed after.machine := by
  refine Option.map_eq_some_iff.trans ?_
  constructor
  · rintro ⟨machine, taken, rfl⟩
    exact ⟨taken, rfl⟩
  · rintro ⟨taken, stored⟩
    exact ⟨after.machine, taken, by rw [← stored]⟩

section Ledger

variable {alloc : IsolatingAllocator A} {ledger after : Ledger A} {framed : FramedAction}
  {spec : Spec} {kernel : Kernel A} {p : Addr}

theorem Machine.leaves_of_call {machine next : Machine A} {action : Action}
    (called : machine.scheduleCall action = some kernel) : machine.leaves action next = some p ↔
      next.control.inCli = false ∧ machine.kernel.currentProcess = some p := by
  simp only [leaves, called]
  cases next.control.inCli <;> simp

theorem record_called (called : ledger.machine.scheduleCall framed.action = some kernel) :
    ledger.record framed after.machine p =
      if ledger.machine.leaves framed.action after.machine = some p then
        ledger.stored p + framed.frame
      else ledger.stored p := by
  simp only [Ledger.record, called]
  cases left : ledger.machine.leaves framed.action after.machine with
  | none => rw [if_neg (Option.some_ne_none p).symm]
  | some q =>
      by_cases same : q = p
      · rw [same, if_pos rfl]
        exact update_self ..
      · rw [if_neg fun here => same (Option.some.inj here)]
        exact update_of_ne (Ne.symm same) _ _

theorem record_newborn (uncalled : ledger.machine.scheduleCall framed.action = none)
    (made : ledger.machine.newborn after.machine = some p) :
    ledger.record framed after.machine p = 0 := by
  simp only [Ledger.record, uncalled, made]
  exact update_self ..

theorem record_calm (uncalled : ledger.machine.scheduleCall framed.action = none)
    (old : ledger.machine.newborn after.machine ≠ some p) :
    ledger.record framed after.machine p = ledger.stored p := by
  simp only [Ledger.record, uncalled]
  cases born : ledger.machine.newborn after.machine with
  | none => rfl
  | some q =>
      have different : p ≠ q := fun same => old (same ▸ born)
      exact update_of_ne different _ _

structure Books (ledger : Ledger A) (framed : FramedAction) (after : Ledger A) : Prop where
  level : after.Level
  room : (∀ p, ledger.machine.kernel.InTable p → MayWait (ledger.machine.kernel.pcb p).state →
      ledger.stored p ≤ 4096) →
    ((∀ p, after.machine.kernel.InTable p → MayWait (after.machine.kernel.pcb p).state →
      after.stored p ≤ 4096) ↔ HasRoom ledger framed)

theorem books_call (level : ledger.Level)
    (called : ledger.machine.scheduleCall framed.action = some kernel)
    (switch : Switch ledger.machine framed.action after.machine kernel)
    (taken : (ledgerSystem alloc.toAllocator).step ledger framed = some after)
    (frames : StoresFrame ⟨ledger, framed, after⟩) : Books ledger framed after := by
  obtain ⟨step, stored⟩ := ledgerStep_iff.mp taken
  have record : ∀ p, after.stored p =
      if ledger.machine.leaves framed.action after.machine = some p then
        ledger.stored p + framed.frame
      else ledger.stored p := by
    intro p
    rw [stored]
    exact record_called called
  have before : ∀ p, after.machine.kernel.InTable p →
      MayWait (after.machine.kernel.pcb p).state →
        ledger.machine.kernel.InTable p ∧ MayWait (ledger.machine.kernel.pcb p).state := by
    intro p inTable may
    exact ⟨(switch.wasInTable p).mp ((switch.inTable p).mp inTable),
      switch.mayWait_before p ((switch.mayWait p).mp may)⟩
  constructor
  · intro p inTable may
    obtain ⟨inTable', may'⟩ := before p inTable may
    have whole := level p inTable' may'
    obtain ⟨base, ptr⟩ := kernelStack_switch called step p
    rw [base, ptr, record]
    by_cases left : ledger.machine.leaves framed.action after.machine = some p
    · obtain ⟨_, below⟩ := frames p left may
      rw [if_pos left, if_pos ((Machine.leaves_of_call called).mp left)]
      dsimp only at below
      omega
    · rw [if_neg left, if_neg fun both => left ((Machine.leaves_of_call called).mpr both)]
      exact whole
  · intro fits
    constructor
    · intro fits' kernel' p called' candidate current inTable may
      cases Option.some.inj (called.symm.trans called')
      have left := (Machine.leaves_of_call called).mpr
        ⟨switch.dispatches.mp candidate, switch.current ▸ current⟩
      have here := fits' p ((switch.inTable p).mpr inTable) ((switch.mayWait p).mpr may)
      rwa [record, if_pos left] at here
    · intro room p inTable may
      obtain ⟨inTable', may'⟩ := before p inTable may
      rw [record]
      split
      · rename_i left
        obtain ⟨inCli, current⟩ := (Machine.leaves_of_call called).mp left
        exact room kernel p called (switch.dispatches.mpr inCli) (switch.current.trans current)
          ((switch.inTable p).mp inTable) ((switch.mayWait p).mp may)
      · exact fits p inTable' may'

theorem books_calm (level : ledger.Level)
    (uncalled : ledger.machine.scheduleCall framed.action = none)
    (calm : Calm ledger.machine after.machine)
    (taken : (ledgerSystem alloc.toAllocator).step ledger framed = some after) :
    Books ledger framed after := by
  obtain ⟨_, stored⟩ := ledgerStep_iff.mp taken
  constructor
  · intro p inTable may
    by_cases old : ledger.machine.kernel.InTable p
    · rw [calm.state p old] at may
      obtain ⟨user, stackPtrs, _⟩ := calm.stackPtrs p old
      have base := congrArg StackPtrs.kernelStackBase stackPtrs
      have ptr := congrArg StackPtrs.kernelStackPtr stackPtrs
      have whole := level p old may
      rw [stored, record_calm uncalled (calm.newborn_ne old)]
      exact (congrArg (· + ledger.stored p) ptr).trans (whole.trans (congrArg (· + 4096) base.symm))
    · obtain ⟨made, atTop⟩ := calm.enters p inTable old
      rw [stored, record_newborn uncalled (Machine.newborn_of_cons made)]
      exact atTop
  · intro fits
    constructor
    · intro _ kernel p called
      cases uncalled.symm.trans called
    · intro _ p inTable may
      by_cases old : ledger.machine.kernel.InTable p
      · rw [calm.state p old] at may
        rw [stored, record_calm uncalled (calm.newborn_ne old)]
        exact fits p old may
      · obtain ⟨made, _⟩ := calm.enters p inTable old
        rw [stored, record_newborn uncalled (Machine.newborn_of_cons made)]
        exact Nat.zero_le _

theorem books_step (invariant : MachineInvariant alloc ledger.machine) (level : ledger.Level)
    (taken : (ledgerSystem alloc.toAllocator).step ledger framed = some after)
    (frames : StoresFrame ⟨ledger, framed, after⟩) : Books ledger framed after := by
  obtain ⟨spec, shows, orderly⟩ := invariant
  obtain ⟨step, _⟩ := ledgerStep_iff.mp taken
  rcases shows.switch_or_calm orderly step with ⟨kernel, called, switch⟩ | ⟨uncalled, calm⟩
  · exact books_call level called switch taken frames
  · exact books_calm level uncalled calm taken

end Ledger

/-! ## Runs -/

/-- In a run where `schedule` stores its frames below what `yield_syscall` loads, the pointers of
the processes that are to come back always lie on their stacks, exactly if the frames of the
suspensions of each of them fit on its stack together. -/
theorem kernel_stacks_bounded_iff (alloc : IsolatingAllocator A) {first last : Ledger A}
    {trace : List (Transition (Ledger A) FramedAction)}
    (initial : (ledgerSystem alloc.toAllocator).initial first)
    (run : (ledgerSystem alloc.toAllocator).Trace first trace last)
    (frames : ∀ transition ∈ trace, StoresFrame transition) :
    (∀ transition ∈ trace, transition.after.machine.kernel.StacksBounded) ↔
      ∀ transition ∈ trace, HasRoom transition.before transition.action := by
  obtain ⟨start, _⟩ := initial
  have empty : ∀ p, ¬ first.machine.kernel.InTable p := by
    rintro p ⟨table, chain, present⟩
    rw [start.table] at chain
    cases table with
    | nil => cases present
    | cons a rest => cases chain.1
  refine run.allowed_meets_iff
    (fun ledger => MachineInvariant alloc ledger.machine ∧ ledger.Level ∧
      ledger.machine.kernel.StacksBounded) StoresFrame
    (fun transition => transition.after.machine.kernel.StacksBounded) HasRoom ?_
    ⟨machineInvariant_initial alloc start, fun p inTable => absurd inTable (empty p),
      fun p inTable => absurd inTable (empty p)⟩ frames
  intro ledger framed after invariant taken stored
  obtain ⟨machine, level, bounded⟩ := invariant
  have books := books_step machine level taken stored
  dsimp only
  refine ⟨books.level.bounded_iff.trans (books.room (level.bounded_iff.mp bounded)), ?_⟩
  exact fun bounded' =>
    ⟨machineInvariant_step alloc machine (ledgerStep_iff.mp taken).1, books.level, bounded'⟩

def bootLedger : Ledger Memory.Heap := ⟨bootMachine, fun _ => 0⟩

theorem bootLedger_initial {alloc : Allocator Memory.Heap} :
    (ledgerSystem alloc).initial bootLedger := ⟨bootMachine_initial, rfl⟩

/-- A process yields twice, forks a child and waits for it, and goes on when it has exited. -/
def yieldYieldWait : List FramedAction :=
  [⟨.createProcess 0 1 1 2, 0⟩, ⟨.start 0, 0⟩, ⟨.yield 0 16360, 32⟩, ⟨.yield 0 16328, 32⟩,
    ⟨.fork 0, 0⟩, ⟨.wait 0 16288, 40⟩, ⟨.exit 7 0, 0⟩, ⟨.resume, 0⟩]

theorem kernel_stacks_bounded_iff_yieldYieldWait : ∃ trace last,
    (ledgerSystem heapAllocator.toAllocator).record bootLedger yieldYieldWait =
      some (trace, last) ∧
    ((∀ transition ∈ trace, transition.after.machine.kernel.StacksBounded) ↔
      ∀ transition ∈ trace, HasRoom transition.before transition.action) := by
  have runs : ((ledgerSystem heapAllocator.toAllocator).record bootLedger yieldYieldWait).any
      fun run => decide (∀ transition ∈ run.1, StoresFrame transition) := by
    decide +kernel
  obtain ⟨⟨trace, last⟩, recorded, frames⟩ := (Option.any_eq_true ..).mp runs
  exact ⟨trace, last, recorded, kernel_stacks_bounded_iff heapAllocator bootLedger_initial
    (System.trace_of_record recorded) (of_decide_eq_true frames)⟩

/-! ## A process that yields too often -/

/-- `p` runs and nobody else is there. -/
structure Alone (machine : Machine A) (p base ptr : Nat) : Prop where
  inCli : machine.control.inCli = false
  inWait : machine.control.inWait p = false
  current : machine.kernel.currentProcess = some p
  queue : machine.kernel.readyQueue.front = none
  table : Chain machine.kernel.pcb.nextInTable machine.kernel.processTableHead [p] none
  runs : (machine.kernel.pcb p).state = .running
  base : (machine.kernel.pcb p).kernelStackBase = base
  ptr : (machine.kernel.pcb p).kernelStackPtr = ptr

namespace Alone

variable {machine : Machine A} {p base ptr : Nat}

theorem caller (alone : Alone machine p base ptr) : machine.caller = some p := by
  simp [Machine.caller, Control.caller, alone.inCli, alone.current, alone.inWait]

theorem yield (alloc : Allocator A) (alone : Alone machine p base ptr) (ebp esp : Nat) : ∃ next,
    machine.step alloc (.yield ebp esp) = some next ∧ Alone next p base esp := by
  obtain ⟨head, rest⟩ := alone.table
  let pcb : Pcb := { machine.kernel.pcb p with
    userStackPtr := ebp, next := none, kernelStackPtr := esp, isNewChild := false }
  let kernel : Kernel A := { machine.kernel with
    pcb := update machine.kernel.pcb p pcb, readyQueue := initializeQueue, currentProcess := some p }
  have ran : yieldSyscall machine.fuel ebp esp machine.kernel p = some (some p, kernel) := by
    cases new : (machine.kernel.pcb p).isNewChild <;>
      simp [yieldSyscall, schedule, preempt, alone.current, alone.runs, Kernel.enqueueReady,
        enqueueProcess, enqueueBy, alone.queue, dispatch, dequeueProcess, initializeQueue,
        Kernel.modify, PcbMemory.modify, PcbMemory.setNext, Kernel.setState, saveKernelStackPtr,
        new, kernel, pcb]
  refine ⟨⟨kernel, machine.control.switch (some p)⟩, ?_, rfl, alone.inWait, rfl, rfl, ⟨head, ?_⟩, ?_,
    ?_, ?_⟩
  · simp [Machine.step, alone.caller, ran]
  · simpa [PcbMemory.nextInTable, kernel, pcb, Chain] using rest
  · simp [kernel, pcb, alone.runs]
  · simp [kernel, pcb, alone.base]
  · simp [kernel, pcb]

theorem yields (alloc : Allocator A) {ledger : Ledger A} {frame n : Nat}
    (alone : Alone ledger.machine p base ptr) (address : 4 ≤ frame) (enough : frame * n ≤ ptr) :
    ∃ trace last, (ledgerSystem alloc).Trace ledger trace last ∧
      (∀ transition ∈ trace, StoresFrame transition) ∧
        Alone last.machine p base (ptr - frame * n) := by
  induction n generalizing ledger ptr with
  | zero => exact ⟨[], ledger, .nil ledger, fun _ => nofun, alone⟩
  | succ n ih =>
      rw [Nat.mul_succ] at enough
      obtain ⟨next, taken, alone'⟩ := alone.yield alloc 0 (ptr - frame)
      let framed : FramedAction := ⟨.yield 0 (ptr - frame), frame⟩
      let after : Ledger A := ⟨next, ledger.record framed next⟩
      have moved : (ledgerSystem alloc).step ledger framed = some after :=
        ledgerStep_iff.mpr ⟨taken, rfl⟩
      obtain ⟨kernel, called⟩ : ∃ kernel, ledger.machine.scheduleCall framed.action = some kernel := by
        simp [Machine.scheduleCall, framed, alone.caller]
      have stores : StoresFrame ⟨ledger, framed, after⟩ := by
        intro q left _
        have current := ((Machine.leaves_of_call called).mp left).2
        cases Option.some.inj (alone.current.symm.trans current)
        refine ⟨address, ?_⟩
        rw [alone.ptr]
        exact Nat.sub_add_cancel (by omega)
      have lowered : Alone after.machine p base (ptr - frame) := alone'
      obtain ⟨trace, last, run, frames, lower⟩ := ih lowered (by omega)
      refine ⟨⟨ledger, framed, after⟩ :: trace, last, .cons moved run, ?_, ?_⟩
      · exact List.forall_mem_cons.mpr ⟨stores, frames⟩
      · rw [show ptr - frame * (n + 1) = ptr - frame - frame * n by rw [Nat.mul_succ]; omega]
        exact lower

end Alone

/-- The CLI creates a process and starts it, and it yields 129 times with frames of 32 bytes. -/
theorem yields_leave_the_stack : ¬ ∀ first trace last,
    (ledgerSystem heapAllocator.toAllocator).initial first →
      (ledgerSystem heapAllocator.toAllocator).Trace first trace last →
        (∀ transition ∈ trace, StoresFrame transition) → last.machine.kernel.StacksBounded := by
  intro always
  have runs : ((ledgerSystem heapAllocator.toAllocator).record bootLedger
      [⟨.createProcess 0 1 1 2, 0⟩, ⟨.start 0, 0⟩]).any fun run =>
        decide (∀ transition ∈ run.1, StoresFrame transition) &&
        decide (run.2.machine.control.inCli = false ∧ run.2.machine.control.inWait 8 = false ∧
          run.2.machine.kernel.currentProcess = some 8 ∧
          run.2.machine.kernel.readyQueue.front = none ∧
          Chain run.2.machine.kernel.pcb.nextInTable run.2.machine.kernel.processTableHead [8]
            none ∧
          (run.2.machine.kernel.pcb 8).state = .running ∧
          (run.2.machine.kernel.pcb 8).kernelStackBase = 12296 ∧
          (run.2.machine.kernel.pcb 8).kernelStackPtr = 16392) := by
    decide +kernel
  obtain ⟨⟨trace, ledger⟩, recorded, checked⟩ := (Option.any_eq_true ..).mp runs
  obtain ⟨frames, started⟩ := Bool.and_eq_true_iff.mp checked
  obtain ⟨inCli, inWait, current, queue, table, runs, base, ptr⟩ := of_decide_eq_true started
  have alone : Alone ledger.machine 8 12296 16392 :=
    ⟨inCli, inWait, current, queue, table, runs, base, ptr⟩
  obtain ⟨yielding, last, run, frames', lower⟩ :=
    alone.yields heapAllocator.toAllocator (by decide : 4 ≤ 32) (by decide : 32 * 129 ≤ 16392)
  have bounded := always bootLedger (trace ++ yielding) last bootLedger_initial
    ((System.trace_of_record recorded).append run)
    (List.forall_mem_append.mpr ⟨of_decide_eq_true frames, frames'⟩)
  have onStack := bounded 8 ⟨[8], lower.table, List.mem_singleton_self 8⟩
    (Or.inr (Or.inr lower.runs))
  rw [Kernel.OnStack, lower.base, lower.ptr] at onStack
  exact absurd onStack.1 (by decide)

/-! ## How often a process may be suspended -/

def suspensions (p : Addr) (trace : List (Transition (Ledger A) FramedAction)) : Nat :=
  trace.countP fun transition => decide
    (transition.before.machine.leaves transition.action.action transition.after.machine = some p)

/-- Steps during which `p` is there and is to come back. -/
def Lives (p : Addr) (transition : Transition (Ledger A) FramedAction) : Prop :=
  transition.before.machine.kernel.InTable p ∧
    MayWait (transition.after.machine.kernel.pcb p).state

section Suspensions

variable {alloc : IsolatingAllocator A} {ledger after last : Ledger A} {framed : FramedAction}
  {p : Addr} {trace : List (Transition (Ledger A) FramedAction)}

theorem stored_step (invariant : MachineInvariant alloc ledger.machine)
    (taken : (ledgerSystem alloc.toAllocator).step ledger framed = some after)
    (frames : StoresFrame ⟨ledger, framed, after⟩) (lives : Lives p ⟨ledger, framed, after⟩) :
    ledger.stored p + 4 * suspensions p [⟨ledger, framed, after⟩] ≤ after.stored p := by
  obtain ⟨step, stored⟩ := ledgerStep_iff.mp taken
  obtain ⟨inTable, may⟩ := lives
  obtain ⟨spec, shows, orderly⟩ := invariant
  rw [suspensions, List.countP_singleton, stored]
  by_cases left : ledger.machine.leaves framed.action after.machine = some p
  · have address := (frames p left may).1
    rw [if_pos (decide_eq_true left)]
    rcases shows.switch_or_calm orderly step with ⟨kernel, called, _⟩ | ⟨uncalled, _⟩
    · rw [record_called called, if_pos left]
      exact Nat.add_le_add_left address _
    · simp only [Machine.leaves, uncalled] at left
      cases left
  · rw [if_neg (by simpa using left)]
    rcases shows.switch_or_calm orderly step with ⟨kernel, called, _⟩ | ⟨uncalled, calm⟩
    · rw [record_called called, if_neg left]
      exact Nat.le_refl _
    · rw [record_calm uncalled (calm.newborn_ne inTable)]
      exact Nat.le_refl _

theorem stored_run (run : (ledgerSystem alloc.toAllocator).Trace ledger trace last)
    (invariant : MachineInvariant alloc ledger.machine)
    (frames : ∀ transition ∈ trace, StoresFrame transition)
    (lives : ∀ transition ∈ trace, Lives p transition) :
    ledger.stored p + 4 * suspensions p trace ≤ last.stored p := by
  induction run with
  | nil ledger => exact Nat.le_refl _
  | cons taken _ ih =>
      rw [List.forall_mem_cons] at frames lives
      have here := stored_step invariant taken frames.1 lives.1
      have next := machineInvariant_step alloc invariant (ledgerStep_iff.mp taken).1
      have later := ih next frames.2 lives.2
      simp only [suspensions, List.countP_cons, List.countP_nil] at here later ⊢
      omega

/-- A process whose stack is level and has room is suspended at most 1024 times. -/
theorem suspensions_le (run : (ledgerSystem alloc.toAllocator).Trace ledger trace last)
    (invariant : MachineInvariant alloc ledger.machine)
    (frames : ∀ transition ∈ trace, StoresFrame transition)
    (lives : ∀ transition ∈ trace, Lives p transition) (room : last.stored p ≤ 4096) :
    suspensions p trace ≤ 1024 := by
  have taken := stored_run run invariant frames lives
  omega

end Suspensions

end ApnaOS.Process
