import ApnaOS.Process.Resuming

/-!
# The shells of cli_loop

`schedule` calls `cli_loop` when nobody is ready, and `cli_loop` calls `schedule`.  Beside the
machine stand the call chains: that of `kernel_main`, and one for each process, on its two
stacks.  `schedule` leaves the chain it is called on for the one the next process had when its
`user_stack_ptr` was stored.
-/

set_option autoImplicit false

namespace ApnaOS.Process

open ApnaOS.Lib
open Function (update update_self update_of_ne)

variable {A : Type}

/-- The activation of a function; `process` is the code of a process. -/
inductive Frame where
  | kernelMain
  | cliLoop
  | schedule
  | yieldSyscall
  | waitSyscall
  | exitSyscall
  | process
deriving DecidableEq

/-- The activations that return to one another, the innermost first. -/
abbrev CallChain := List Frame

/-- The calls from the shell or from the code of a process to `schedule`. -/
def Move.calls : Move → List Frame
  | .act (.start _) => [.schedule]
  | .act (.yield ..) | .act (.stateExit ..) => [.schedule, .yieldSyscall]
  | .act (.wait ..) => [.schedule, .yieldSyscall, .waitSyscall]
  | .act (.exit ..) => [.schedule, .exitSyscall]
  | .schedule .. => [.schedule]
  | _ => []

/-- A machine and its call chains, which are numbered; that of `kernel_main` is 0. -/
structure Shells (A : Type) where
  machine : Machine A
  count : Nat
  chain : Nat → CallChain
  /-- The chain that runs. -/
  cpu : Nat
  /-- The chain of the process with this PCB. -/
  owner : Addr → Nat
  /-- What that process goes on with from its `user_stack_ptr`. -/
  saved : Addr → CallChain
  /-- Where the shell has returned to. -/
  returned : Option Frame

/-- The shell's other commands return to it and change none of this. -/
inductive Command where
  | move (move : Move)
  | other
  | exit

namespace Shells

def live (shells : Shells A) : CallChain := shells.chain shells.cpu

/-- The running process has stored the frame whose caller is the head of this chain. -/
def save (shells : Shells A) (chain : CallChain) : Shells A :=
  match shells.machine.caller with
  | none => shells
  | some p => { shells with saved := update shells.saved p chain }

/-- `user_stack_ptr` is stored by `yield_syscall` and by `fork_syscall`. -/
def keep (shells : Shells A) : Move → Shells A
  | .act (.yield ..) | .act (.stateExit ..) | .act (.fork _) => shells.save shells.live
  | .act (.wait ..) => shells.save (.waitSyscall :: shells.live)
  | _ => shells

/-- `schedule` after the calls that lead to it: the shell, or the chain of the next process. -/
def switch (shells : Shells A) (calls : List Frame) (next : Machine A) : Shells A :=
  let left := calls ++ shells.live
  if next.control.inCli then
    { shells with
      machine := next, chain := update shells.chain shells.cpu (.cliLoop :: left) }
  else
    match next.kernel.currentProcess with
    | none => { shells with machine := next }
    | some p =>
        { shells with
          machine := next
          chain := update (update shells.chain shells.cpu left) (shells.owner p) (shells.saved p)
          cpu := shells.owner p }

def enroll (shells : Shells A) (p : Addr) (chain : CallChain) : Shells A :=
  { shells with
    count := shells.count + 1
    chain := update shells.chain shells.count chain
    owner := update shells.owner p shells.count
    saved := update shells.saved p chain }

/-- A move that does not call `schedule`.  A forked process returns from `fork_syscall` as its
parent does, and `wait_syscall` returns when it goes on. -/
def stay (shells : Shells A) (move : Move) (next : Machine A) : Shells A :=
  let born := shells.machine.newborn next
  match move with
  | .act (.fork _) =>
      let shells := shells.keep move
      { (born.elim shells fun p => shells.enroll p shells.live) with machine := next }
  | .act .resume =>
      { shells with
        machine := next, chain := update shells.chain shells.cpu shells.live.tail }
  | _ => { (born.elim shells fun p => shells.enroll p [.process]) with machine := next }

/-- `exit` leaves the loop, and `cli_loop` returns to the activation behind it. -/
def exit (shells : Shells A) : Shells A :=
  { shells with
    chain := update shells.chain shells.cpu shells.live.tail
    returned := shells.live.tail.head? }

def step (alloc : Allocator A) (shells : Shells A) (command : Command) : Option (Shells A) :=
  if shells.returned.isSome then none
  else
    match command with
    | .move move =>
        (shells.machine.move alloc move).map fun next =>
          if (shells.machine.moveCall move).isSome then
            (shells.keep move).switch move.calls next
          else shells.stay move next
    | .other => if shells.machine.control.inCli then some shells else none
    | .exit => if shells.machine.control.inCli then some shells.exit else none

/-- `kernel_main` has called `cli_loop`. -/
structure Initial (shells : Shells A) : Prop where
  machine : shells.machine.Initial
  count : shells.count = 1
  chain : shells.chain = fun i => if i = 0 then [.cliLoop, .kernelMain] else []
  cpu : shells.cpu = 0
  owner : shells.owner = fun _ => 0
  saved : shells.saved = fun _ => []
  returned : shells.returned = none

/-- At most one activation of `cli_loop` is on each chain, and it returns to `kernel_main`. -/
structure OneShell (shells : Shells A) : Prop where
  once : ∀ i, (shells.chain i).count .cliLoop ≤ 1
  returns : ∀ frame, shells.returned = some frame → frame = .kernelMain

/-- `process start` finds somebody in the queue, and `exit` is given before anybody was. -/
def Meets (shells : Shells A) : Command → Prop
  | .move (.act (.start _)) => isQueueEmpty shells.machine.kernel.readyQueue = false
  | .exit => shells.machine.kernel.currentProcess = none
  | _ => True

end Shells

def shellSystem (alloc : Allocator A) : System (Shells A) Command where
  initial := Shells.Initial
  step := Shells.step alloc

/-! ## What a move does to the machine -/

theorem dispatch_current (esp : Nat) (kernel : Kernel A) :
    ((dispatch esp kernel).1 = none ∧
      (dispatch esp kernel).2.currentProcess = kernel.currentProcess) ∨
    ∃ p, (dispatch esp kernel).1 = some p ∧ (dispatch esp kernel).2.currentProcess = some p := by
  rw [dispatch]
  rcases dequeueProcess kernel.pcb kernel.readyQueue with ⟨next, pcb, queue⟩
  cases next with
  | none => exact Or.inl ⟨rfl, rfl⟩
  | some p => exact Or.inr ⟨p, rfl, rfl⟩

/-- With nobody ready the shell runs and `current_process` stays. -/
theorem current_of_call {alloc : Allocator A} {machine next : Machine A} {action : Action}
    {kernel : Kernel A} (called : machine.scheduleCall action = some kernel)
    (taken : machine.step alloc action = some next) :
    (next.control.inCli = true ∧
      next.kernel.currentProcess = machine.kernel.currentProcess) ∨
    ∃ p, next.control.inCli = false ∧ next.kernel.currentProcess = some p := by
  obtain ⟨control, step⟩ := @Machine.step_of_scheduleCall _ machine alloc action kernel called
  rw [taken] at step
  obtain ⟨⟨given, kernel'⟩, ran, same⟩ := Option.map_eq_some_iff.mp step.symm
  obtain ⟨middle, preempted, dispatched⟩ := Option.bind_eq_some_iff.mp ran
  have before := (Machine.scheduleCall_stackPtrs called).1
  have kept := (unlinked_stackPtrs.preempt preempted).2
  have outcome := dispatch_current action.esp middle
  rw [Option.some.inj dispatched, kept, before] at outcome
  rw [← same]
  rcases outcome with ⟨nobody, current⟩ | ⟨p, somebody, current⟩
  · rw [nobody]
    exact Or.inl ⟨rfl, current⟩
  · rw [somebody]
    exact Or.inr ⟨p, rfl, current⟩

theorem Refines.isQueueEmpty_eq {kernel : Kernel A} {processes : Processes}
    (refines : Refines kernel processes) :
    isQueueEmpty kernel.readyQueue = processes.ready.isEmpty := by
  rw [isQueueEmpty, refines.queue.chain.start_eq]
  cases processes.ready <;> rfl

/-- In the shell nobody runs, so `schedule` picks from the queue alone. -/
theorem candidate_iff_in_shell {alloc : IsolatingAllocator A} {machine : Machine A}
    (invariant : MachineInvariant alloc machine) (inShell : machine.control.inCli = true) :
    (∃ p, machine.kernel.Candidate p) ↔ isQueueEmpty machine.kernel.readyQueue = false := by
  obtain ⟨spec, shows, orderly⟩ := invariant
  have sound := orderly.sound
  rw [shows.control] at inShell
  have from_queue : ∀ p, machine.kernel.Candidate p ↔ p ∈ spec.processes.ready := by
    intro p
    rw [shows.refines.candidate_iff sound, spec.processes.mem_ready_preempt, or_iff_left]
    rintro ⟨current, runs⟩
    exact orderly.idle inShell p (sound.current p current) runs
  rw [shows.refines.isQueueEmpty_eq, List.isEmpty_eq_false_iff_exists_mem]
  exact exists_congr from_queue

section Queue

variable {alloc : IsolatingAllocator A} {machine next : Machine A}

theorem Processes.ready_create (processes : Processes) (p : Addr) (priority : Int) :
    (processes.create p priority).ready.isEmpty = false := by
  have inside : p ∈ (processes.create p priority).ready := (mem_insertByKey ..).mpr (Or.inl rfl)
  rw [List.isEmpty_eq_false_iff]
  exact List.ne_nil_of_mem inside

/-- Of the processes that the shell creates exactly those that get memory are queued. -/
theorem queue_after_create {entryPoint : Nat} {priority deadline timeToRun : Int}
    (invariant : MachineInvariant alloc machine)
    (taken : machine.step alloc.toAllocator
      (.createProcess entryPoint priority deadline timeToRun) = some next) :
    isQueueEmpty next.kernel.readyQueue =
      (isQueueEmpty machine.kernel.readyQueue && !(machine.newborn next).isSome) := by
  obtain ⟨spec, shows, orderly⟩ := invariant
  obtain ⟨next', spec', simulated⟩ := shows.simulate orderly (enabled_of_step taken)
  cases Option.some.inj (taken.symm.trans simulated.taken)
  rw [shows.refines.isQueueEmpty_eq, simulated.shows.refines.isQueueEmpty_eq]
  have control := simulated.shows.control
  cases simulated.step with
  | created p accepts fresh =>
      have made : next.control.born = p :: machine.control.born := by
        rw [control, shows.control]
        rfl
      rw [Machine.newborn_of_cons made, Processes.ready_create]
      exact (Bool.and_false _).symm
  | notCreated accepts =>
      have nobody : machine.newborn next = none := by
        rw [Machine.newborn, control, shows.control, if_pos rfl]
      rw [nobody]
      exact (Bool.and_true _).symm

/-- `schedule` comes back to the shell only with an empty queue. -/
theorem queue_after_start {esp : Nat} (invariant : MachineInvariant alloc machine)
    (taken : machine.step alloc.toAllocator (.start esp) = some next)
    (inShell : next.control.inCli = true) : isQueueEmpty next.kernel.readyQueue = true := by
  obtain ⟨spec, shows, orderly⟩ := invariant
  obtain ⟨next', spec', simulated⟩ := shows.simulate orderly (enabled_of_step taken)
  cases Option.some.inj (taken.symm.trans simulated.taken)
  rw [simulated.shows.refines.isQueueEmpty_eq]
  rw [simulated.shows.control] at inShell
  cases simulated.step with
  | started inCli =>
      rw [Spec.reschedule, Processes.schedule, Processes.dispatch] at inShell ⊢
      cases ready : spec.processes.preempt.ready with
      | nil =>
          dsimp only
          rw [ready]
          rfl
      | cons p rest =>
          rw [ready] at inShell
          cases inShell

end Queue

namespace Machine

variable {machine : Machine A}

theorem inCli_of_caller {p : Addr} (caller : machine.caller = some p) :
    machine.control.inCli = false := by
  simp only [Machine.caller, Control.caller, Option.ite_none_left_eq_some] at caller
  simpa using caller.1

theorem inCli_of_resumer {p : Addr} (resumer : machine.resumer = some p) :
    machine.control.inCli = false := by
  simp only [Machine.resumer, Control.resumer, Option.ite_none_left_eq_some] at resumer
  simpa using resumer.1

end Machine

/-- How a move leaves the CPU: by a call of `schedule`, or where it was. -/
structure Called (machine : Machine A) (move : Move) (next : Machine A) : Prop where
  calls : ∃ rest, move.calls = .schedule :: rest ∧ .cliLoop ∉ rest
  current : (next.control.inCli = true ∧
      next.kernel.currentProcess = machine.kernel.currentProcess) ∨
    ∃ p, next.control.inCli = false ∧ next.kernel.currentProcess = some p
  fromShell : machine.control.inCli = true → (∃ esp, move = .act (.start esp)) ∧
    (next.control.inCli = false ↔ isQueueEmpty machine.kernel.readyQueue = false)
  fromProcess : machine.control.inCli = false →
    (∀ esp, move ≠ .act (.start esp)) ∧ machine.kernel.currentProcess ≠ none

structure Stayed (machine : Machine A) (move : Move) (next : Machine A) : Prop where
  inCli : next.control.inCli = machine.control.inCli
  current : next.kernel.currentProcess = machine.kernel.currentProcess
  notStart : ∀ esp, move ≠ .act (.start esp)
  byProcess : (∃ ebp, move = .act (.fork ebp)) ∨ move = .act .resume →
    machine.control.inCli = false

theorem calls_of_moveCall {machine : Machine A} {move : Move} {kernel : Kernel A}
    (called : machine.moveCall move = some kernel) :
    ∃ rest, move.calls = .schedule :: rest ∧ .cliLoop ∉ rest := by
  cases move with
  | schedule ebp esp => exact ⟨[], rfl, by decide⟩
  | act action =>
      cases action with
      | createProcess | fork | resume => cases called
      | start esp => exact ⟨[], rfl, by decide⟩
      | yield ebp esp | stateExit ebp esp => exact ⟨[.yieldSyscall], rfl, by decide⟩
      | wait ebp esp => exact ⟨[.yieldSyscall, .waitSyscall], rfl, by decide⟩
      | exit status esp => exact ⟨[.exitSyscall], rfl, by decide⟩

theorem start_iff_inCli {machine : Machine A} {move : Move} {kernel : Kernel A}
    (called : machine.moveCall move = some kernel) :
    (∃ esp, move = .act (.start esp)) ↔ machine.control.inCli = true := by
  have byProcess : ∀ p, machine.caller = some p → machine.control.inCli ≠ true := by
    intro p caller
    rw [Machine.inCli_of_caller caller]
    decide
  cases move with
  | schedule ebp esp =>
      obtain ⟨p, caller, _⟩ := Option.map_eq_some_iff.mp called
      exact iff_of_false (fun ⟨_, clash⟩ => by cases clash) (byProcess p caller)
  | act action =>
      cases action with
      | createProcess | fork | resume => cases called
      | start esp =>
          have inShell := (Option.ite_none_right_eq_some.mp called).1
          exact iff_of_true ⟨esp, rfl⟩ inShell
      | yield _ _ | stateExit _ _ | wait _ _ | exit _ _ =>
          obtain ⟨p, caller, _⟩ := Option.bind_eq_some_iff.mp called
          exact iff_of_false (fun ⟨_, clash⟩ => by cases clash) (byProcess p caller)

section Move

variable {alloc : IsolatingAllocator A} {machine next : Machine A} {move : Move}

theorem called_of_move (invariant : MachineInvariant alloc machine)
    (taken : machine.move alloc.toAllocator move = some next) {kernel : Kernel A}
    (called : machine.moveCall move = some kernel) : Called machine move next := by
  have start := start_iff_inCli called
  have call := called
  rw [Machine.moveCall_eq] at call
  rw [Machine.move_eq_step] at taken
  obtain ⟨spec, shows, orderly⟩ := id invariant
  constructor
  · exact calls_of_moveCall called
  · exact current_of_call call taken
  · intro inShell
    obtain ⟨esp, same⟩ := start.mpr inShell
    refine ⟨⟨esp, same⟩, ?_⟩
    have here : kernel = machine.kernel := by
      rw [same] at called
      exact (Option.some.inj (Option.ite_none_right_eq_some.mp called).2).symm
    rcases shows.switch_or_calm orderly taken with ⟨kernel', call', switch⟩ | ⟨uncalled, _⟩
    · have same' := Option.some.inj (call.symm.trans call')
      rw [← candidate_iff_in_shell invariant inShell, ← here, same']
      exact switch.dispatches.symm
    · cases call.symm.trans uncalled
  · intro inProcess
    constructor
    · intro esp same
      have inShell := start.mp ⟨esp, same⟩
      rw [inProcess] at inShell
      cases inShell
    · rw [shows.control] at inProcess
      obtain ⟨p, current, _⟩ := orderly.runs inProcess
      rw [shows.refines.current, current]
      exact Option.some_ne_none p

theorem stayed_of_move (invariant : MachineInvariant alloc machine)
    (taken : machine.move alloc.toAllocator move = some next)
    (uncalled : machine.moveCall move = none) : Stayed machine move next := by
  have step := taken
  rw [Machine.move_eq_step] at step
  obtain ⟨spec, shows, orderly⟩ := invariant
  have calm : Calm machine next := by
    rw [Machine.moveCall_eq] at uncalled
    rcases shows.switch_or_calm orderly step with ⟨kernel, called, _⟩ | ⟨_, calm⟩
    · cases uncalled.symm.trans called
    · exact calm
  refine ⟨calm.inCli, calm.current, ?_, ?_⟩
  · intro esp same
    rw [same] at uncalled taken
    have started : machine.step alloc.toAllocator (.start esp) = some next := taken
    have inShell : machine.control.inCli = true := enabled_of_step started
    have notCalled : (if machine.control.inCli then some machine.kernel else none) = none := uncalled
    rw [if_pos inShell] at notCalled
    cases notCalled
  · intro either
    rcases either with ⟨ebp, same⟩ | same
    · rw [same] at taken
      obtain ⟨p, caller, _⟩ := Option.bind_eq_some_iff.mp taken
      exact Machine.inCli_of_caller caller
    · rw [same] at taken
      obtain ⟨p, resumer, _⟩ := Option.bind_eq_some_iff.mp taken
      exact Machine.inCli_of_resumer resumer

end Move

/-! ## What it does to the chains -/

namespace Shells

/-- The shell is the head of the chain that runs, right behind it is who called it, and no
chain that is to go on has a shell in it. -/
structure Chained (shells : Shells A) : Prop where
  inShell : shells.machine.control.inCli = true → shells.returned = none →
    ∃ caller below, shells.live = .cliLoop :: caller :: below ∧
      (caller = .kernelMain ↔ shells.machine.kernel.currentProcess = none)
  inProcess : shells.machine.control.inCli = false → .cliLoop ∉ shells.live
  saved : ∀ p, .cliLoop ∉ shells.saved p
  cpu : shells.cpu < shells.count
  owner : ∀ p, shells.owner p < shells.count

theorem Initial.chained {shells : Shells A} (initial : shells.Initial) : shells.Chained := by
  have live : shells.live = [.cliLoop, .kernelMain] := by
    rw [Shells.live, initial.chain, initial.cpu]
    rfl
  constructor
  · intro _ _
    exact ⟨.kernelMain, [], live, iff_of_true rfl initial.machine.current⟩
  · intro inProcess
    rw [initial.machine.control] at inProcess
    cases inProcess
  · intro p
    rw [initial.saved]
    exact List.not_mem_nil
  · rw [initial.cpu, initial.count]
    exact Nat.one_pos
  · intro p
    rw [initial.owner, initial.count]
    exact Nat.one_pos

theorem Initial.oneShell {shells : Shells A} (initial : shells.Initial) : shells.OneShell := by
  constructor
  · intro i
    rw [initial.chain]
    dsimp only
    split
    · decide
    · decide
  · intro frame clash
    rw [initial.returned] at clash
    cases clash

theorem once_update {chain : Nat → CallChain} (once : ∀ i, (chain i).count .cliLoop ≤ 1)
    (j : Nat) {new : CallChain} (here : new.count .cliLoop ≤ 1) (i : Nat) :
    (update chain j new i).count .cliLoop ≤ 1 := by
  by_cases same : i = j
  · rw [same, update_self]
    exact here
  · rw [update_of_ne same]
    exact once i

theorem free_update {saved : Addr → CallChain} (free : ∀ p, .cliLoop ∉ saved p) (p : Addr)
    {new : CallChain} (here : .cliLoop ∉ new) (q : Addr) : .cliLoop ∉ update saved p new q := by
  by_cases same : q = p
  · rw [same, update_self]
    exact here
  · rw [update_of_ne same]
    exact free q

theorem count_le_one_of_free {chain : CallChain} (free : .cliLoop ∉ chain) :
    chain.count .cliLoop ≤ 1 := by
  rw [List.count_eq_zero.mpr free]
  exact Nat.zero_le 1

/-- What `keep` leaves: everything but what is saved, and no shell in that. -/
structure Kept (shells kept : Shells A) : Prop where
  machine : kept.machine = shells.machine
  count : kept.count = shells.count
  chain : kept.chain = shells.chain
  cpu : kept.cpu = shells.cpu
  owner : kept.owner = shells.owner
  returned : kept.returned = shells.returned
  saved : ∀ p, .cliLoop ∉ kept.saved p

theorem Chained.kept_self {shells : Shells A} (chained : shells.Chained) : Kept shells shells :=
  ⟨rfl, rfl, rfl, rfl, rfl, rfl, chained.saved⟩

theorem Chained.save {shells : Shells A} (chained : shells.Chained) {chain : CallChain}
    (free : .cliLoop ∉ shells.live → .cliLoop ∉ chain) : Kept shells (shells.save chain) := by
  rw [Shells.save]
  cases caller : shells.machine.caller with
  | none => exact chained.kept_self
  | some p =>
      have here := free (chained.inProcess (Machine.inCli_of_caller caller))
      exact ⟨rfl, rfl, rfl, rfl, rfl, rfl, free_update chained.saved p here⟩

theorem Chained.keep {shells : Shells A} (chained : shells.Chained) (move : Move) :
    Kept shells (shells.keep move) := by
  have same := chained.kept_self
  cases move with
  | schedule ebp esp => exact same
  | act action =>
      cases action with
      | createProcess | start | resume | exit => exact same
      | yield | stateExit | fork => exact chained.save id
      | wait ebp esp =>
          refine chained.save fun free member => free ?_
          exact (List.mem_cons.mp member).resolve_left (by decide)

/-! ### A call of schedule -/

section Switch

variable {shells kept : Shells A} {move : Move} {next : Machine A}

theorem switch_shell (calls : List Frame) (inShell : next.control.inCli = true) :
    kept.switch calls next = { kept with
      machine := next
      chain := update kept.chain kept.cpu (.cliLoop :: (calls ++ kept.live)) } := by
  rw [Shells.switch, if_pos inShell]

theorem switch_process (calls : List Frame) {p : Addr} (inProcess : next.control.inCli = false)
    (current : next.kernel.currentProcess = some p) :
    kept.switch calls next = { kept with
      machine := next
      chain := update (update kept.chain kept.cpu (calls ++ kept.live)) (kept.owner p)
        (kept.saved p)
      cpu := kept.owner p } := by
  rw [Shells.switch, if_neg (by simp [inProcess]), current]

theorem Kept.live_eq (keeps : Kept shells kept) : kept.live = shells.live := by
  rw [Shells.live, Shells.live, keeps.chain, keeps.cpu]

namespace Kept

theorem once (keeps : Kept shells kept) (one : shells.OneShell) (i : Nat) :
    (kept.chain i).count .cliLoop ≤ 1 := by
  rw [keeps.chain]
  exact one.once i

theorem returns (keeps : Kept shells kept) (one : shells.OneShell) (frame : Frame)
    (returned : kept.returned = some frame) : frame = .kernelMain :=
  one.returns frame (keeps.returned ▸ returned)

theorem cpu_lt (keeps : Kept shells kept) (chained : shells.Chained) : kept.cpu < kept.count := by
  rw [keeps.cpu, keeps.count]
  exact chained.cpu

theorem owner_lt (keeps : Kept shells kept) (chained : shells.Chained) (p : Addr) :
    kept.owner p < kept.count := by
  rw [keeps.owner, keeps.count]
  exact chained.owner p

end Kept

theorem count_calls (called : Called shells.machine move next) (chain : CallChain) :
    (move.calls ++ chain).count .cliLoop = chain.count .cliLoop := by
  obtain ⟨rest, calls, free⟩ := called.calls
  have none : move.calls.count .cliLoop = 0 := by
    rw [List.count_eq_zero, calls, List.mem_cons, not_or]
    exact ⟨by decide, free⟩
  rw [List.count_append, none, Nat.zero_add]

theorem Chained.dispatch (chained : shells.Chained) (one : shells.OneShell)
    (keeps : Kept shells kept) (called : Called shells.machine move next) {p : Addr}
    (inProcess : next.control.inCli = false) (current : next.kernel.currentProcess = some p) :
    (kept.switch move.calls next).OneShell ∧ (kept.switch move.calls next).Chained := by
  rw [switch_process move.calls inProcess current]
  have free := keeps.saved p
  constructor
  · constructor
    · have left : (move.calls ++ kept.live).count .cliLoop ≤ 1 := by
        rw [count_calls called, keeps.live_eq]
        exact one.once shells.cpu
      exact once_update (once_update (keeps.once one) kept.cpu left) (kept.owner p)
        (count_le_one_of_free free)
    · exact keeps.returns one
  · constructor
    · intro inShell
      exact absurd (inProcess.symm.trans inShell) Bool.false_ne_true
    · intro _
      dsimp only [Shells.live]
      rw [update_self]
      exact free
    · exact keeps.saved
    · exact keeps.owner_lt chained p
    · exact keeps.owner_lt chained

theorem Chained.enterShell (chained : shells.Chained) (one : shells.OneShell)
    (keeps : Kept shells kept) (called : Called shells.machine move next)
    (fromProcess : shells.machine.control.inCli = false) (inShell : next.control.inCli = true) :
    (kept.switch move.calls next).OneShell ∧ (kept.switch move.calls next).Chained := by
  obtain ⟨rest, calls, _⟩ := called.calls
  have free := chained.inProcess fromProcess
  have somebody : next.kernel.currentProcess ≠ none := by
    rcases called.current with ⟨_, same⟩ | ⟨p, inProcess, _⟩
    · rw [same]
      exact (called.fromProcess fromProcess).2
    · exact absurd (inProcess.symm.trans inShell) Bool.false_ne_true
  rw [switch_shell move.calls inShell]
  constructor
  · constructor
    · have entered : (.cliLoop :: (move.calls ++ kept.live)).count Frame.cliLoop ≤ 1 := by
        rw [List.count_cons_self, count_calls called, keeps.live_eq, List.count_eq_zero.mpr free]
      exact once_update (keeps.once one) kept.cpu entered
    · exact keeps.returns one
  · constructor
    · intro _ _
      refine ⟨.schedule, rest ++ kept.live, ?_, ?_⟩
      · dsimp only [Shells.live]
        rw [update_self, calls]
        rfl
      · exact iff_of_false (by decide) somebody
    · intro inProcess
      exact absurd (inProcess.symm.trans inShell) Bool.false_ne_true
    · exact keeps.saved
    · exact keeps.cpu_lt chained
    · exact keeps.owner_lt chained

theorem Chained.nest (chained : shells.Chained) (keeps : Kept shells kept)
    (called : Called shells.machine move next) (running : shells.returned = none)
    (fromShell : shells.machine.control.inCli = true) (inShell : next.control.inCli = true) :
    ¬ (kept.switch move.calls next).OneShell := by
  intro one
  obtain ⟨caller, below, here, _⟩ := chained.inShell fromShell running
  have live : kept.live = .cliLoop :: caller :: below := by
    rw [keeps.live_eq, here]
  have twice := one.once kept.cpu
  rw [switch_shell move.calls inShell] at twice
  dsimp only at twice
  rw [update_self, List.count_cons_self, count_calls called, live, List.count_cons_self] at twice
  omega

theorem meets_of_not_start (other : ∀ esp, move ≠ .act (.start esp)) :
    shells.Meets (.move move) := by
  rw [Shells.Meets.eq_def]
  split
  · rename_i esp same
    cases same
    exact absurd rfl (other esp)
  · rename_i clash
    cases clash
  · trivial

theorem meets_move_iff (called : Called shells.machine move next) : shells.Meets (.move move) ↔
    shells.machine.control.inCli = false ∨ next.control.inCli = false := by
  cases from_ : shells.machine.control.inCli with
  | true =>
      obtain ⟨⟨esp, same⟩, dispatches⟩ := called.fromShell from_
      rw [same, or_iff_right (by decide)]
      exact dispatches.symm
  | false =>
      exact iff_of_true (meets_of_not_start (called.fromProcess from_).1) (Or.inl rfl)

theorem Chained.switch (chained : shells.Chained) (one : shells.OneShell)
    (running : shells.returned = none) (called : Called shells.machine move next) :
    (((shells.keep move).switch move.calls next).OneShell ↔ shells.Meets (.move move)) ∧
      (((shells.keep move).switch move.calls next).OneShell →
        ((shells.keep move).switch move.calls next).Chained) := by
  have keeps := chained.keep move
  rw [meets_move_iff called]
  rcases called.current with ⟨inShell, _⟩ | ⟨p, inProcess, current⟩
  · cases from_ : shells.machine.control.inCli with
    | true =>
        have nested := chained.nest keeps called running from_ inShell
        refine ⟨iff_of_false nested ?_, fun here => absurd here nested⟩
        simp [inShell]
    | false =>
        obtain ⟨here, chained'⟩ := chained.enterShell one keeps called from_ inShell
        exact ⟨iff_of_true here (Or.inl rfl), fun _ => chained'⟩
  · obtain ⟨here, chained'⟩ := chained.dispatch one keeps called inProcess current
    exact ⟨iff_of_true here (Or.inr inProcess), fun _ => chained'⟩

end Switch

/-! ### The other moves -/

section Stay

variable {shells kept : Shells A} {move : Move} {next : Machine A} {chain : CallChain}

theorem Chained.stays (chained : shells.Chained) (one : shells.OneShell) (keeps : Kept shells kept)
    (stayed : Stayed shells.machine move next) :
    ({ kept with machine := next } : Shells A).OneShell ∧
      ({ kept with machine := next } : Shells A).Chained := by
  have live : ({ kept with machine := next } : Shells A).live = shells.live := keeps.live_eq
  constructor
  · constructor
    · exact keeps.once one
    · exact keeps.returns one
  · constructor
    · rw [live, stayed.inCli, stayed.current, keeps.returned]
      exact chained.inShell
    · rw [live, stayed.inCli]
      exact chained.inProcess
    · exact keeps.saved
    · exact keeps.cpu_lt chained
    · exact keeps.owner_lt chained

theorem Chained.enroll (chained : shells.Chained) (one : shells.OneShell)
    (free : .cliLoop ∉ chain) (p : Addr) :
    (shells.enroll p chain).OneShell ∧ (shells.enroll p chain).Chained := by
  have live : (shells.enroll p chain).live = shells.live := by
    dsimp only [Shells.live, Shells.enroll]
    rw [update_of_ne (Nat.ne_of_lt chained.cpu)]
  constructor
  · constructor
    · exact once_update one.once shells.count (count_le_one_of_free free)
    · exact one.returns
  · constructor
    · rw [live]
      exact chained.inShell
    · rw [live]
      exact chained.inProcess
    · exact free_update chained.saved p free
    · exact Nat.lt_succ_of_lt chained.cpu
    · intro q
      dsimp only [Shells.enroll]
      by_cases new : q = p
      · rw [new, update_self]
        exact Nat.lt_succ_self shells.count
      · rw [update_of_ne new]
        exact Nat.lt_succ_of_lt (chained.owner q)

theorem Chained.grow (chained : shells.Chained) (one : shells.OneShell) (keeps : Kept shells kept)
    (stayed : Stayed shells.machine move next) (free : .cliLoop ∉ chain) (born : Option Addr) :
    ({ (born.elim kept fun p => kept.enroll p chain) with machine := next } : Shells A).OneShell ∧
      ({ (born.elim kept fun p => kept.enroll p chain) with machine := next } : Shells A).Chained := by
  obtain ⟨one', chained'⟩ := chained.stays one keeps stayed
  cases born with
  | none => exact ⟨one', chained'⟩
  | some p => exact chained'.enroll one' free p

theorem Chained.resume (chained : shells.Chained) (one : shells.OneShell)
    (stayed : Stayed shells.machine move next) (inProcess : shells.machine.control.inCli = false) :
    ({ shells with
        machine := next
        chain := update shells.chain shells.cpu shells.live.tail } : Shells A).OneShell ∧
      ({ shells with
          machine := next
          chain := update shells.chain shells.cpu shells.live.tail } : Shells A).Chained := by
  have free : .cliLoop ∉ shells.live.tail :=
    fun member => chained.inProcess inProcess (List.mem_of_mem_tail member)
  constructor
  · constructor
    · exact once_update one.once shells.cpu (count_le_one_of_free free)
    · exact one.returns
  · constructor
    · intro inShell
      rw [stayed.inCli, inProcess] at inShell
      cases inShell
    · intro _
      dsimp only [Shells.live] at free ⊢
      rw [update_self]
      exact free
    · exact chained.saved
    · exact chained.cpu
    · exact chained.owner

theorem Chained.stay (chained : shells.Chained) (one : shells.OneShell)
    (stayed : Stayed shells.machine move next) :
    (shells.stay move next).OneShell ∧ (shells.stay move next).Chained := by
  have fresh : .cliLoop ∉ [Frame.process] := by decide
  rw [Shells.stay.eq_def]
  dsimp only
  split
  · rename_i ebp
    have keeps := chained.keep (.act (.fork ebp))
    have free := chained.inProcess (stayed.byProcess (Or.inl ⟨ebp, rfl⟩))
    rw [← keeps.live_eq] at free
    exact chained.grow one keeps stayed free _
  · exact chained.resume one stayed (stayed.byProcess (Or.inr rfl))
  · exact chained.grow one chained.kept_self stayed fresh _

end Stay

/-! ### exit -/

/-- The shell of `kernel_main` is left where it was called, every other one in `schedule`. -/
theorem Chained.exit {shells : Shells A} (chained : shells.Chained) (one : shells.OneShell)
    (running : shells.returned = none) (inShell : shells.machine.control.inCli = true) :
    (shells.exit.OneShell ↔ shells.machine.kernel.currentProcess = none) ∧
      shells.exit.Chained := by
  obtain ⟨caller, below, live, kernelMain⟩ := chained.inShell inShell running
  have returned : shells.exit.returned = some caller := by
    rw [Shells.exit, live]
    rfl
  constructor
  · rw [← kernelMain]
    constructor
    · intro here
      exact here.returns caller returned
    · intro same
      constructor
      · have shorter := List.Sublist.count_le Frame.cliLoop (List.tail_sublist shells.live)
        exact once_update one.once shells.cpu (shorter.trans (one.once shells.cpu))
      · intro frame there
        rw [returned] at there
        cases there
        exact same
  · constructor
    · intro _ still
      rw [returned] at still
      cases still
    · intro inProcess
      exact absurd (inProcess.symm.trans inShell) Bool.false_ne_true
    · exact chained.saved
    · exact chained.cpu
    · exact chained.owner

/-! ## Runs -/

theorem step_move {alloc : Allocator A} {shells next : Shells A} {move : Move}
    (taken : (shellSystem alloc).step shells (.move move) = some next) :
    shells.returned = none ∧ ∃ machine, shells.machine.move alloc move = some machine ∧
      next = if (shells.machine.moveCall move).isSome then
        (shells.keep move).switch move.calls machine
      else shells.stay move machine := by
  obtain ⟨running, taken⟩ := Option.ite_none_left_eq_some.mp taken
  obtain ⟨machine, moved, same⟩ := Option.map_eq_some_iff.mp taken
  exact ⟨Option.not_isSome_iff_eq_none.mp running, machine, moved, same.symm⟩

theorem switch_machine (shells : Shells A) (calls : List Frame) (next : Machine A) :
    (shells.switch calls next).machine = next := by
  rw [Shells.switch]
  split
  · rfl
  · split <;> rfl

theorem stay_machine (shells : Shells A) (move : Move) (next : Machine A) :
    (shells.stay move next).machine = next := by
  rw [Shells.stay.eq_def]
  dsimp only
  split <;> rfl

theorem machineInvariant_shellStep {alloc : IsolatingAllocator A} {shells next : Shells A}
    {command : Command} (invariant : MachineInvariant alloc shells.machine)
    (taken : (shellSystem alloc.toAllocator).step shells command = some next) :
    MachineInvariant alloc next.machine := by
  cases command with
  | move move =>
      obtain ⟨_, machine, moved, same⟩ := step_move taken
      rw [Machine.move_eq_step] at moved
      have machine_eq : next.machine = machine := by
        rw [same]
        split
        · exact switch_machine _ _ machine
        · exact stay_machine shells move machine
      rw [machine_eq]
      exact machineInvariant_step alloc invariant moved
  | other | exit =>
      obtain ⟨_, taken⟩ := Option.ite_none_left_eq_some.mp taken
      obtain ⟨_, same⟩ := Option.ite_none_right_eq_some.mp taken
      rw [← Option.some.inj same]
      exact invariant

theorem step_oneShell_iff {alloc : IsolatingAllocator A} {shells next : Shells A}
    {command : Command} (invariant : MachineInvariant alloc shells.machine)
    (chained : shells.Chained) (one : shells.OneShell)
    (taken : (shellSystem alloc.toAllocator).step shells command = some next) :
    (next.OneShell ↔ shells.Meets command) ∧ (next.OneShell → next.Chained) := by
  cases command with
  | move move =>
      obtain ⟨running, machine, moved, same⟩ := step_move taken
      rw [same]
      cases call : shells.machine.moveCall move with
      | some kernel =>
          exact chained.switch one running (called_of_move invariant moved call)
      | none =>
          have stayed := stayed_of_move invariant moved call
          obtain ⟨one', chained'⟩ := chained.stay one stayed
          exact ⟨iff_of_true one' (meets_of_not_start stayed.notStart), fun _ => chained'⟩
  | other =>
      obtain ⟨_, taken⟩ := Option.ite_none_left_eq_some.mp taken
      obtain ⟨_, same⟩ := Option.ite_none_right_eq_some.mp taken
      rw [← Option.some.inj same]
      exact ⟨iff_of_true one trivial, fun _ => chained⟩
  | exit =>
      obtain ⟨running, taken⟩ := Option.ite_none_left_eq_some.mp taken
      obtain ⟨inShell, same⟩ := Option.ite_none_right_eq_some.mp taken
      rw [← Option.some.inj same]
      obtain ⟨returns, chained'⟩ :=
        chained.exit one (Option.not_isSome_iff_eq_none.mp running) inShell
      exact ⟨returns, fun _ => chained'⟩

/-- In every run there is one shell at a time, and `exit` returns to `kernel_main`, exactly if
each `process start` finds somebody in the ready queue and `exit` is given before a process
was dispatched. -/
theorem one_shell_iff (alloc : IsolatingAllocator A) {first last : Shells A}
    {trace : List (Transition (Shells A) Command)}
    (initial : (shellSystem alloc.toAllocator).initial first)
    (run : (shellSystem alloc.toAllocator).Trace first trace last) :
    (∀ transition ∈ trace, transition.after.OneShell) ↔
      ∀ transition ∈ trace, transition.before.Meets transition.action := by
  have start : first.Initial := initial
  refine run.good_iff (fun shells => MachineInvariant alloc shells.machine ∧ shells.Chained)
    Shells.OneShell Shells.Meets ?_
    ⟨machineInvariant_initial alloc start.machine, start.chained⟩ start.oneShell
  intro shells command next both one taken
  obtain ⟨invariant, chained⟩ := both
  obtain ⟨exact_step, kept⟩ := step_oneShell_iff invariant chained one taken
  exact ⟨exact_step, fun here => ⟨machineInvariant_shellStep invariant taken, kept here⟩⟩

end Shells

/-- The booted machine in the shell of `kernel_main`. -/
def bootShells : Shells Memory.Heap where
  machine := bootMachine
  count := 1
  chain := fun i => if i = 0 then [.cliLoop, .kernelMain] else []
  cpu := 0
  owner := fun _ => 0
  saved := fun _ => []
  returned := none

theorem bootShells_initial {alloc : Allocator Memory.Heap} :
    (shellSystem alloc).initial bootShells := ⟨bootMachine_initial, rfl, rfl, rfl, rfl, rfl, rfl⟩

/-- A process that is started and exits leaves one shell, on its own chain. -/
theorem Shells.one_shell_iff_after_exit : ∃ trace last,
    (shellSystem heapAllocator.toAllocator).record bootShells
      [.move (.act (.createProcess 0 1 1 2)), .move (.act (.start 0)),
        .move (.act (.exit 0 0))] = some (trace, last) ∧
    ((∀ transition ∈ trace, transition.after.OneShell) ↔
      ∀ transition ∈ trace, transition.before.Meets transition.action) := by
  have runs : ((shellSystem heapAllocator.toAllocator).record bootShells
      [.move (.act (.createProcess 0 1 1 2)), .move (.act (.start 0)),
        .move (.act (.exit 0 0))]).isSome := by
    decide +kernel
  obtain ⟨⟨trace, last⟩, recorded⟩ := Option.isSome_iff_exists.mp runs
  exact ⟨trace, last, recorded, Shells.one_shell_iff heapAllocator bootShells_initial
    (System.trace_of_record recorded)⟩

/-- `process start` with nobody in the queue, and `exit`: the second shell is left into the
endless loop of `schedule`.  After a process has exited there is one shell, and `exit` leaves
it there as well. -/
theorem shell_in_schedule :
    (shellSystem heapAllocator.toAllocator).initial bootShells ∧
    (∃ trace last, (shellSystem heapAllocator.toAllocator).record bootShells
        [.move (.act (.start 0)), .exit] = some (trace, last) ∧
      (∃ transition ∈ trace, (transition.after.chain 0).count .cliLoop = 2) ∧
      last.returned = some .schedule) ∧
    ∃ trace last, (shellSystem heapAllocator.toAllocator).record bootShells
        [.move (.act (.createProcess 0 1 1 2)), .move (.act (.start 0)), .move (.act (.exit 0 0)),
          .exit] = some (trace, last) ∧
      last.returned = some .schedule := by
  have nested : ((shellSystem heapAllocator.toAllocator).record bootShells
      [.move (.act (.start 0)), .exit]).any fun run =>
        (run.1.any fun transition => decide ((transition.after.chain 0).count .cliLoop = 2)) &&
          decide (run.2.returned = some .schedule) := by
    decide +kernel
  have single : ((shellSystem heapAllocator.toAllocator).record bootShells
      [.move (.act (.createProcess 0 1 1 2)), .move (.act (.start 0)), .move (.act (.exit 0 0)),
        .exit]).any fun run => decide (run.2.returned = some .schedule) := by
    decide +kernel
  obtain ⟨⟨trace, last⟩, recorded, found⟩ := (Option.any_eq_true ..).mp nested
  obtain ⟨twice, returned⟩ := Bool.and_eq_true_iff.mp found
  obtain ⟨transition, member, checked⟩ := List.any_eq_true.mp twice
  obtain ⟨⟨trace', last'⟩, recorded', returned'⟩ := (Option.any_eq_true ..).mp single
  exact ⟨bootShells_initial,
    ⟨trace, last, recorded, ⟨transition, member, of_decide_eq_true checked⟩,
      of_decide_eq_true returned⟩,
    trace', last', recorded', of_decide_eq_true returned'⟩

end ApnaOS.Process
