import ApnaOS.Process.Shells
import ApnaOS.Shell.Session

/-!
# What becomes of the requests

The process system serves the requests of a session.  Whether a process is queued, and where
`process start` and `exit` lead, depends on the ready queue and the call chains of the kernel,
and the stage at which the session ends is where they are.
-/

set_option autoImplicit false

namespace ApnaOS.Shell

open ApnaOS.Lib ApnaOS.FileSystem
open ApnaOS.Process (Machine MachineInvariant IsolatingAllocator Shells shellSystem isQueueEmpty)
open Function (update_self update_of_ne)

variable {A : Type}

/-! ## One request -/

/-- `address` is where the code of a program is, and `esp` where `schedule` is called. -/
def Request.command (address : EntryPoint → Nat) (esp : Nat) : Request → Process.Command
  | .nothing => .other
  | .exit => .exit
  | .schedule => .move (.act (.start esp))
  | .createProcess entryPoint priority =>
      .move (.act (.createProcess (address entryPoint) priority 1 2))

def Loop.caller (loop : Loop) : Process.Frame :=
  if loop.nested then .schedule else .kernelMain

/-- The kernel runs this activation of `cli_loop`. -/
structure Loop.Runs (loop : Loop) (shells : Shells A) : Prop where
  running : shells.returned = none
  inShell : shells.machine.control.inCli = true
  queue : isQueueEmpty shells.machine.kernel.readyQueue = !loop.ready
  chain : ∃ below, shells.live = .cliLoop :: loop.caller :: below
  numbered : shells.cpu < shells.count

/-- The kernel is where the stage has it. -/
def Stage.Holds (shells : Shells A) : Stage → Prop
  | .reading loop => loop.Runs shells
  | .process => shells.returned = none ∧ shells.machine.control.inCli = false
  | .spinning => shells.returned = some .schedule
  | .halted => shells.returned = some .kernelMain

section Served

variable {alloc : IsolatingAllocator A} {shells : Shells A} {loop : Loop}

theorem live_enroll (numbered : shells.cpu < shells.count) (p : Process.Addr)
    (chain : Process.CallChain) : (shells.enroll p chain).live = shells.live := by
  dsimp only [Shells.live, Shells.enroll]
  rw [update_of_ne (Nat.ne_of_lt numbered)]

theorem Loop.Runs.other (runs : loop.Runs shells) :
    (shellSystem alloc.toAllocator).step shells .other = some shells := by
  simp [shellSystem, Shells.step, runs.running, runs.inShell]

theorem Loop.Runs.exit (runs : loop.Runs shells) :
    (shellSystem alloc.toAllocator).step shells .exit = some shells.exit ∧
      (if loop.nested then Stage.spinning else .halted).Holds shells.exit := by
  constructor
  · simp [shellSystem, Shells.step, runs.running, runs.inShell]
  · obtain ⟨below, live⟩ := runs.chain
    have returned : shells.exit.returned = some loop.caller := by
      rw [Shells.exit, live]
      rfl
    rw [Loop.caller] at returned
    cases nested : loop.nested with
    | true =>
        rw [nested] at returned
        exact returned
    | false =>
        rw [nested] at returned
        exact returned

theorem Loop.Runs.createProcess (runs : loop.Runs shells)
    (invariant : MachineInvariant alloc shells.machine) (entryPoint : Nat) (priority : Int) :
    ∃ served next, (shellSystem alloc.toAllocator).step shells
        (.move (.act (.createProcess entryPoint priority 1 2))) = some next ∧
      Loop.Runs { loop with ready := loop.ready || served } next := by
  obtain ⟨spec, shows, orderly⟩ := id invariant
  have enabled : shells.machine.Enabled (.createProcess entryPoint priority 1 2) :=
    Or.inl runs.inShell
  obtain ⟨machine, _, simulated⟩ := shows.simulate_create orderly enabled
  have moved : shells.machine.move alloc.toAllocator
      (.act (.createProcess entryPoint priority 1 2)) = some machine := simulated.taken
  have stayed := Process.stayed_of_move invariant moved rfl
  have queue := Process.queue_after_create invariant simulated.taken
  refine ⟨(shells.machine.newborn machine).isSome,
    shells.stay (.act (.createProcess entryPoint priority 1 2)) machine, ?_, ?_⟩
  · simp [shellSystem, Shells.step, runs.running, Machine.moveCall, Machine.scheduleCall, moved]
  · have ready : isQueueEmpty machine.kernel.readyQueue =
        !(loop.ready || (shells.machine.newborn machine).isSome) := by
      rw [queue, runs.queue, Bool.not_or]
    have inShell := stayed.inCli.trans runs.inShell
    unfold Shells.stay
    dsimp only
    cases born : shells.machine.newborn machine with
    | none =>
        rw [born] at ready
        exact ⟨runs.running, inShell, ready, runs.chain, runs.numbered⟩
    | some p =>
        rw [born] at ready
        refine ⟨runs.running, inShell, ready, ?_, Nat.lt_succ_of_lt runs.numbered⟩
        show ∃ below, (shells.enroll p [.process]).live = _
        rw [live_enroll runs.numbered]
        exact runs.chain

theorem Loop.Runs.start (runs : loop.Runs shells)
    (invariant : MachineInvariant alloc shells.machine) (esp : Nat) :
    ∃ next, (shellSystem alloc.toAllocator).step shells (.move (.act (.start esp))) = some next ∧
      (if loop.ready then Stage.process else .reading Loop.again).Holds next := by
  obtain ⟨spec, shows, orderly⟩ := id invariant
  have enabled : shells.machine.Enabled (.start esp) := runs.inShell
  obtain ⟨machine, _, simulated⟩ := shows.simulate orderly enabled
  have moved : shells.machine.move alloc.toAllocator (.act (.start esp)) = some machine :=
    simulated.taken
  have call : shells.machine.moveCall (.act (.start esp)) = some shells.machine.kernel :=
    if_pos runs.inShell
  have called := Process.called_of_move invariant moved call
  have dispatched := (called.fromShell runs.inShell).2
  rw [runs.queue, Bool.not_eq_false'] at dispatched
  refine ⟨shells.switch [.schedule] machine, ?_, ?_⟩
  · simp [shellSystem, Shells.step, runs.running, call, moved, Shells.keep, Process.Move.calls]
  · cases ready : loop.ready with
    | true =>
        have inProcess := dispatched.mpr ready
        rcases called.current with ⟨inShell, _⟩ | ⟨p, _, current⟩
        · exact absurd (inProcess.symm.trans inShell) Bool.false_ne_true
        · rw [Shells.switch_process _ inProcess current]
          exact ⟨runs.running, inProcess⟩
    | false =>
        have inShell : machine.control.inCli = true := by
          rw [← Bool.not_eq_false, dispatched, ready]
          exact Bool.false_ne_true
        rw [Shells.switch_shell _ inShell]
        have queue := Process.queue_after_start invariant simulated.taken inShell
        refine ⟨runs.running, inShell, queue, ⟨shells.live, ?_⟩, runs.numbered⟩
        exact update_self ..

/-- Where a request leads depends on the kernel. -/
theorem Loop.Runs.serve (runs : loop.Runs shells) (invariant : MachineInvariant alloc shells.machine)
    (address : EntryPoint → Nat) (esp : Nat) (request : Request) :
    ∃ served next,
      (shellSystem alloc.toAllocator).step shells (request.command address esp) = some next ∧
        (loop.after served request).Holds next := by
  cases request with
  | nothing => exact ⟨false, shells, runs.other, runs⟩
  | exit => exact ⟨false, shells.exit, runs.exit⟩
  | schedule =>
      obtain ⟨next, taken, holds⟩ := runs.start invariant esp
      exact ⟨false, next, taken, holds⟩
  | createProcess entryPoint priority =>
      exact runs.createProcess invariant (address entryPoint) priority

end Served

/-! ## Sessions -/

theorem cliLoop_served {alloc : IsolatingAllocator A} {shells : Shells A} {loop : Loop}
    (invariant : MachineInvariant alloc shells.machine) (runs : loop.Runs shells)
    (address : EntryPoint → Nat) (esp : Nat) (disk : Disk) (entries : List Entry) :
    ∃ turns : List Turn, turns.map Turn.toEntry = entries ∧ ∃ trace last,
      (shellSystem alloc.toAllocator).Trace shells trace last ∧
      trace.map Transition.action =
        (cliLoop disk loop turns).requests.map (Request.command address esp) ∧
      (cliLoop disk loop turns).stage.Holds last := by
  induction entries generalizing disk loop shells with
  | nil => exact ⟨[], rfl, [], shells, .nil shells, rfl, runs⟩
  | cons entry rest ih =>
      obtain ⟨served, next, taken, holds⟩ :=
        runs.serve invariant address esp (cliLine disk entry).request
      have invariant' := Process.Shells.machineInvariant_shellStep invariant taken
      cases stage : loop.after served (cliLine disk entry).request with
      | reading loop' =>
          rw [stage] at holds
          obtain ⟨turns, same, trace, last, run, requests, ends⟩ :=
            ih invariant' holds (cliLine disk entry).disk
          refine ⟨⟨entry, served⟩ :: turns, congrArg (entry :: ·) same, _, last,
            .cons taken run, ?_⟩
          rw [cliLoop]
          dsimp only
          rw [stage]
          exact ⟨congrArg (_ :: ·) requests, ends⟩
      | process | spinning | halted =>
          rw [stage] at holds
          refine ⟨⟨entry, served⟩ :: rest.map (⟨·, false⟩), ?_, _, next,
            .cons taken (.nil next), ?_⟩
          · rw [List.map_cons, List.map_map]
            exact congrArg (entry :: ·) (List.map_id rest)
          · rw [cliLoop]
            dsimp only
            rw [stage]
            exact ⟨rfl, holds⟩

/-- From the start of the kernel on, for every sequence of lines, the process system serves the
requests of the session and ends at the stage at which it does. -/
theorem session_served (alloc : IsolatingAllocator A) (address : EntryPoint → Nat) (esp : Nat)
    {shells : Shells A} (initial : shells.Initial) (disk : Disk) (entries : List Entry) :
    ∃ turns : List Turn, turns.map Turn.toEntry = entries ∧ ∃ trace last,
      (shellSystem alloc.toAllocator).Trace shells trace last ∧
      trace.map Transition.action =
        (cliLoop disk Loop.boot turns).requests.map (Request.command address esp) ∧
      (cliLoop disk Loop.boot turns).stage.Holds last := by
  have start := initial.machine
  apply cliLoop_served (Process.machineInvariant_initial alloc start)
  constructor
  · exact initial.returned
  · rw [start.control]
  · rw [start.queue]
    rfl
  · refine ⟨[], ?_⟩
    rw [Shells.live, initial.chain, initial.cpu]
    rfl
  · rw [initial.cpu, initial.count]
    exact Nat.one_pos

end ApnaOS.Shell
