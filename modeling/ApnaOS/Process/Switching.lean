import ApnaOS.Process.DispatchOrder
import ApnaOS.Process.Stacks

/-!
# Who is to come back

A process in the table that is ready, running or blocked is to come back to the CPU.  Only
the process that makes a call of `schedule` can stop being so in it, and a step without
such a call changes nobody.
-/

set_option autoImplicit false

namespace ApnaOS.Process

open ApnaOS.Lib

variable {A : Type}

namespace Spec

theorem Orderly.mayWait_at_call {spec : Spec} (orderly : spec.Orderly) {action : Action}
    {processes : Processes} (called : spec.scheduleCall action = some processes) (p : Addr) :
    (MayWait (processes.state p) → MayWait (spec.processes.state p)) ∧
      (spec.caller ≠ some p →
        MayWait (spec.processes.state p) → MayWait (processes.state p)) := by
  have calls : ∀ q, spec.caller = some q → MayWait (spec.processes.state q) :=
    fun q caller => Or.inr (Or.inr (orderly.caller_runs caller).2)
  have stopped : ∀ q state, spec.caller = some q →
      (MayWait ((spec.processes.setState q state).state p) → MayWait (spec.processes.state p)) ∧
        (spec.caller ≠ some p →
          MayWait (spec.processes.state p) →
            MayWait ((spec.processes.setState q state).state p)) := by
    intro q state caller
    rw [Processes.state_setState]
    by_cases same : p = q
    · rw [same]
      exact ⟨fun _ => calls q caller, fun other => absurd caller other⟩
    · rw [if_neg same]
      exact ⟨id, fun _ => id⟩
  cases action with
  | createProcess | fork | resume => cases called
  | start esp =>
      simp only [Spec.scheduleCall, Option.ite_none_right_eq_some, Option.some.injEq] at called
      rw [← called.2]
      exact ⟨id, fun _ => id⟩
  | yield ebp esp =>
      obtain ⟨_, _, same⟩ := Option.map_eq_some_iff.mp called
      rw [← same]
      exact ⟨id, fun _ => id⟩
  | wait ebp esp =>
      obtain ⟨q, caller, called⟩ := Option.bind_eq_some_iff.mp called
      split at called
      · cases called
      · rw [← Option.some.inj called]
        exact stopped q .blocked caller
  | exit status esp =>
      obtain ⟨q, caller, same⟩ := Option.map_eq_some_iff.mp called
      rw [← same]
      by_cases here : p = q
      · rw [here]
        exact ⟨fun _ => calls q caller, fun other => absurd caller other⟩
      · rw [Processes.state]
        rcases spec.processes.proc_exit_of_ne here status with ⟨kept, _⟩ | ⟨_, blocks, woken⟩
        · rw [kept]
          exact ⟨id, fun _ => id⟩
        · rw [woken]
          exact ⟨fun _ => Or.inl blocks, fun _ _ => Or.inr (Or.inl rfl)⟩
  | stateExit ebp esp =>
      obtain ⟨q, caller, same⟩ := Option.map_eq_some_iff.mp called
      rw [← same]
      exact stopped q .exit caller

/-- Whom a call of `schedule` leaves when a process makes it: the caller, and if that is
to come back, it has called through `yield_syscall`. -/
theorem caller_at_call {spec : Spec} {action : Action}
    {processes : Processes} (called : spec.scheduleCall action = some processes) {p : Addr}
    (inCli : spec.control.inCli = false) (current : spec.processes.current = some p) :
    spec.caller = some p ∧ (MayWait (processes.state p) → action.frame.isSome = true) := by
  have calls : ∀ q, spec.caller = some q → spec.caller = some p := by
    intro q caller
    rw [← current, (caller_eq_some.mp caller).2.1]
    exact caller
  cases action with
  | createProcess | fork | resume => cases called
  | start esp => simp [Spec.scheduleCall, inCli] at called
  | yield ebp esp | stateExit ebp esp =>
      obtain ⟨q, caller, _⟩ := Option.map_eq_some_iff.mp called
      exact ⟨calls q caller, fun _ => rfl⟩
  | wait ebp esp =>
      obtain ⟨q, caller, _⟩ := Option.bind_eq_some_iff.mp called
      exact ⟨calls q caller, fun _ => rfl⟩
  | exit status esp =>
      obtain ⟨q, caller, same⟩ := Option.map_eq_some_iff.mp called
      refine ⟨calls q caller, ?_⟩
      intro may
      rw [Option.some.inj ((calls q caller).symm.trans caller), ← same, Processes.state,
        Processes.proc_exit_self] at may
      rcases may with clash | clash | clash <;> cases clash

end Spec

section Step

variable {alloc : IsolatingAllocator A} {machine next : Machine A} {action : Action}
  {spec : Spec} {p : Addr}

theorem Shows.unused (shows : Shows alloc machine spec) (present : p ∈ spec.processes.table) :
    machine.kernel.nextPcb alloc.toAllocator ≠ some p := by
  intro next
  have given : alloc.kmalloc machine.kernel.allocator pcbSize =
      (some p, (alloc.kmalloc machine.kernel.allocator pcbSize).2) := Prod.ext next rfl
  exact alloc.fresh given (shows.live p present)

/-- When a call of `schedule` dispatches, and who is to come back after it. -/
structure Switch (machine : Machine A) (action : Action) (next : Machine A) (kernel : Kernel A) :
    Prop where
  dispatches : (∃ q, kernel.Candidate q) ↔ next.control.inCli = false
  current : kernel.currentProcess = machine.kernel.currentProcess
  inTable : ∀ p, next.kernel.InTable p ↔ kernel.InTable p
  mayWait : ∀ p, MayWait (next.kernel.pcb p).state ↔ MayWait (kernel.pcb p).state
  wasInTable : ∀ p, kernel.InTable p ↔ machine.kernel.InTable p
  mayWait_before : ∀ p, MayWait (kernel.pcb p).state → MayWait (machine.kernel.pcb p).state
  stillMayWait : ∀ p, machine.caller ≠ some p → MayWait (machine.kernel.pcb p).state →
    MayWait (kernel.pcb p).state
  byProcess : ∀ p, machine.control.inCli = false → machine.kernel.currentProcess = some p →
    machine.caller = some p ∧ (MayWait (kernel.pcb p).state → action.frame.isSome = true)

theorem Shows.switch_of_call (shows : Shows alloc machine spec) (orderly : spec.Orderly)
    {processes : Processes} {control : Control} (called : spec.scheduleCall action = some processes)
    (shows' : Shows alloc next (Spec.reschedule processes control)) :
    ∃ kernel, machine.scheduleCall action = some kernel ∧ Switch machine action next kernel := by
  obtain ⟨kernel, here, refines⟩ : ∃ kernel, machine.scheduleCall action = some kernel ∧
      Refines kernel processes := by
    rcases shows.scheduleCall orderly action with ⟨_, uncalled⟩ | ⟨kernel, _, here, there, refines⟩
    · cases called.symm.trans uncalled
    · cases Option.some.inj (called.symm.trans there)
      exact ⟨kernel, here, refines⟩
  obtain ⟨sound, arrives, table⟩ := orderly.scheduleCall called
  have turns := sound.schedule_turns
  have refines' := shows'.refines
  have state' : ∀ p, (next.kernel.pcb p).state = processes.schedule.2.state p := refines'.state_eq
  refine ⟨kernel, here, ?_, (Machine.scheduleCall_stackPtrs here).1, ?_, ?_, ?_, ?_, ?_, ?_⟩
  · have inCli : next.control.inCli = processes.schedule.1.isNone :=
      congrArg Control.inCli shows'.control
    simp only [refines.candidate_iff sound, inCli]
    rcases processes.schedule_ready with ⟨nobody, empty, _⟩ | ⟨q, given, _, front⟩
    · simp [nobody, empty]
    · simp [given, front]
  · intro p
    rw [refines.inTable_iff, refines'.inTable_iff]
    exact iff_of_eq (congrArg (p ∈ ·) turns.table)
  · intro p
    rw [state', refines.state_eq]
    exact turns.mayWait_iff p
  · intro p
    rw [refines.inTable_iff, shows.refines.inTable_iff, table]
  · intro p
    rw [refines.state_eq, shows.refines.state_eq]
    exact (orderly.mayWait_at_call called p).1
  · intro p
    rw [refines.state_eq, shows.refines.state_eq, shows.caller_eq]
    exact (orderly.mayWait_at_call called p).2
  · intro p inCli current
    rw [shows.control] at inCli
    rw [shows.refines.current] at current
    rw [shows.caller_eq, refines.state_eq]
    exact Spec.caller_at_call called inCli current

/-- A step without a call of `schedule`: processes stay as they are, at most its caller gets
a new frame, and a new process has an empty kernel stack. -/
structure Calm (machine next : Machine A) : Prop where
  current : next.kernel.currentProcess = machine.kernel.currentProcess
  inCli : next.control.inCli = machine.control.inCli
  state : ∀ p, machine.kernel.InTable p → (next.kernel.pcb p).state = (machine.kernel.pcb p).state
  stays : ∀ p, machine.kernel.InTable p → (machine.kernel.pcb p).state ≠ .zombie →
    next.kernel.InTable p
  stackPtrs : ∀ p, machine.kernel.InTable p → ∃ user,
    next.kernel.stackPtrs p = { machine.kernel.stackPtrs p with userStackPtr := user } ∧
      (machine.caller ≠ some p → user = (machine.kernel.stackPtrs p).userStackPtr)
  enters : ∀ p, next.kernel.InTable p → ¬ machine.kernel.InTable p →
    next.control.born = p :: machine.control.born ∧ next.kernel.AtTop p
  fresh : ∀ p, next.control.born = p :: machine.control.born → ¬ machine.kernel.InTable p
  born : next.control.born = machine.control.born ∨
    ∃ p, next.control.born = p :: machine.control.born

def Machine.newborn (machine next : Machine A) : Option Addr :=
  if next.control.born.length = machine.control.born.length then none
  else next.control.born.head?

theorem Machine.newborn_of_cons (made : next.control.born = p :: machine.control.born) :
    machine.newborn next = some p := by
  rw [newborn, made, if_neg (by simp), List.head?_cons]

theorem Calm.newborn_ne (calm : Calm machine next) (present : machine.kernel.InTable p) :
    machine.newborn next ≠ some p := by
  rcases calm.born with same | ⟨q, made⟩
  · rw [Machine.newborn, same, if_pos rfl]
    exact (Option.some_ne_none p).symm
  · rw [Machine.newborn_of_cons made]
    intro here
    exact calm.fresh q made (Option.some.inj here ▸ present)

theorem Machine.Quiet.calm (quiet : Machine.Quiet alloc.toAllocator machine next)
    (shows : Shows alloc machine spec) {spec' : Spec}
    (simulated : Simulated alloc machine spec action next spec')
    (undisturbed : Undisturbed spec.processes spec'.processes)
    (born : ∀ a ∈ spec'.processes.table, a ∉ spec.processes.table →
      spec'.control.born = a :: spec.control.born) : Calm machine next := by
  have shows' := simulated.shows
  have inTable := shows.refines.inTable_iff
  have inTable' := shows'.refines.inTable_iff
  refine ⟨quiet.current, quiet.inCli, ?_, ?_, ?_, ?_, ?_, ?_⟩
  · intro p present
    rw [inTable] at present
    rw [shows.refines.state_eq, shows'.refines.state_eq, Processes.state,
      undisturbed.proc p present, Processes.state]
  · intro p present remains
    rw [inTable] at present
    rw [shows.refines.state_eq] at remains
    exact (inTable' p).mpr (undisturbed.stays p present remains)
  · intro p present
    exact quiet.others p (shows.unused ((inTable p).mp present))
  · intro p present absent
    rw [inTable'] at present
    rw [inTable] at absent
    have made := born p present absent
    rw [← shows.control, ← shows'.control] at made
    exact ⟨made, quiet.made p made⟩
  · intro p made present
    rw [inTable] at present
    rw [shows.control, shows'.control] at made
    exact (simulated.born p made).1 (shows.live p present)
  · rw [shows.control, shows'.control]
    exact simulated.step.born_cases

theorem Shows.switch_or_calm (shows : Shows alloc machine spec) (orderly : spec.Orderly)
    (taken : machine.step alloc.toAllocator action = some next) :
    (∃ kernel, machine.scheduleCall action = some kernel ∧ Switch machine action next kernel) ∨
    (machine.scheduleCall action = none ∧ Calm machine next) := by
  obtain ⟨next', spec', simulated⟩ := shows.simulate orderly (enabled_of_step taken)
  cases Option.some.inj (taken.symm.trans simulated.taken)
  rcases simulated.step.scheduleCall orderly with
    ⟨processes, control, called, same⟩ | ⟨uncalled, _, undisturbed, born⟩
  · have shows' := simulated.shows
    rw [same] at shows'
    exact Or.inl (shows.switch_of_call orderly called shows')
  · have unmade : machine.scheduleCall action = none := by
      rcases shows.scheduleCall orderly action with ⟨here, _⟩ | ⟨_, _, _, there, _⟩
      · exact here
      · cases uncalled.symm.trans there
    exact Or.inr ⟨unmade, (Machine.step_quiet unmade taken).calm shows simulated undisturbed born⟩

end Step

end ApnaOS.Process
