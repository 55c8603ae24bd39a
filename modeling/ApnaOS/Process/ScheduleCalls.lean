import ApnaOS.Process.Waiting

/-!
# The calls of schedule

Which steps call `schedule` and in which state, and what happens to the ready queue
before the call.
-/

set_option autoImplicit false

namespace ApnaOS.Process

open ApnaOS.Lib

variable {A : Type}

/-- The kernel as it is when the step calls `schedule`, if it does. -/
def Machine.scheduleCall (machine : Machine A) : Action → Option (Kernel A)
  | .createProcess .. => none
  | .start _ => if machine.control.inCli then some machine.kernel else none
  | .fork _ => none
  | .yield ebp _ => do
      let p ← machine.caller
      some (machine.kernel.modify p fun pcb => { pcb with userStackPtr := ebp })
  | .wait ebp _ => do
      let p ← machine.caller
      let (zombieChild, kernel) ← findZombieChild machine.fuel machine.kernel p
      match zombieChild with
      | some _ => none
      | none =>
          some ((kernel.setState p .blocked).modify p fun pcb => { pcb with userStackPtr := ebp })
  | .resume => none
  | .exit status _ => do
      let p ← machine.caller
      let kernel := machine.kernel.modify p fun pcb =>
        { pcb with exitStatus := status, state := .zombie }
      wakeParent machine.fuel kernel p
  | .stateExit ebp _ => do
      let p ← machine.caller
      some ((machine.kernel.setState p .exit).modify p fun pcb => { pcb with userStackPtr := ebp })

/-- What `schedule` finds in the register `esp`. -/
def Action.esp : Action → Nat
  | .start esp | .yield _ esp | .wait _ esp | .exit _ esp | .stateExit _ esp => esp
  | _ => 0

theorem Machine.step_of_scheduleCall {machine : Machine A} {alloc : Allocator A} {action : Action}
    {kernel : Kernel A} (called : machine.scheduleCall action = some kernel) :
    ∃ control : Control, machine.step alloc action =
      (schedule machine.fuel action.esp kernel).map
        fun result => ⟨result.2, control.switch result.1⟩ := by
  cases action with
  | createProcess | fork | resume => cases called
  | start esp =>
      refine ⟨machine.control, ?_⟩
      simp only [scheduleCall, Option.ite_none_right_eq_some, Option.some.injEq] at called
      simp only [Machine.step, called.1, if_true, called.2, Option.bind_eq_bind, Option.map_eq_bind]
      rfl
  | yield ebp esp =>
      obtain ⟨p, caller, same⟩ := Option.bind_eq_some_iff.mp called
      refine ⟨machine.control, ?_⟩
      rw [← Option.some.inj same]
      simp only [Machine.step, caller, yieldSyscall, Option.bind_eq_bind, Option.bind_some,
        Option.map_eq_bind]
      rfl
  | wait ebp esp =>
      obtain ⟨p, caller, called⟩ := Option.bind_eq_some_iff.mp called
      obtain ⟨⟨zombieChild, found⟩, ran, same⟩ := Option.bind_eq_some_iff.mp called
      cases zombieChild with
      | some child => cases same
      | none =>
          refine ⟨machine.control.setInWait p true, ?_⟩
          rw [← Option.some.inj same]
          simp only [Machine.step, caller, waitSyscall, ran, yieldSyscall, Option.bind_eq_bind,
            Option.bind_some, Option.map_eq_bind, Option.bind_assoc]
          rfl
  | exit status esp =>
      obtain ⟨p, caller, woken⟩ := Option.bind_eq_some_iff.mp called
      refine ⟨machine.control.log (.exited p status), ?_⟩
      simp only [Machine.step, caller, exitSyscall, woken, Option.bind_eq_bind, Option.bind_some,
        Option.map_eq_bind]
      rfl
  | stateExit ebp esp =>
      obtain ⟨p, caller, same⟩ := Option.bind_eq_some_iff.mp called
      refine ⟨machine.control, ?_⟩
      rw [← Option.some.inj same]
      simp only [Machine.step, caller, stateExit, yieldSyscall, Option.bind_eq_bind,
        Option.bind_some, Option.map_eq_bind]
      rfl

/-! ## The same in the model -/

def Spec.scheduleCall (spec : Spec) : Action → Option Processes
  | .createProcess .. => none
  | .start _ => if spec.control.inCli then some spec.processes else none
  | .fork _ => none
  | .yield _ _ => spec.caller.map fun _ => spec.processes
  | .wait _ _ => spec.caller.bind fun p =>
      match spec.processes.zombieChild p with
      | some _ => none
      | none => some (spec.processes.setState p .blocked)
  | .resume => none
  | .exit status _ => spec.caller.map fun p => spec.processes.exit p status
  | .stateExit _ _ => spec.caller.map fun p => spec.processes.setState p .exit

namespace Refines

variable {kernel : Kernel A} {processes : Processes}

theorem die (refines : Refines kernel processes) (p : Addr) (status : Int) :
    Refines (kernel.modify p fun pcb => { pcb with exitStatus := status, state := .zombie })
      (processes.die p status) := by
  rw [Processes.die, Processes.setExitStatus, Processes.setState, Processes.modify_modify]
  exact refines.modify p _ _ (fun _ => rfl) (fun _ => rfl) (fun _ => rfl)

theorem saveUserStackPtr (refines : Refines kernel processes) (p : Addr) (ebp : Nat) :
    Refines (kernel.modify p fun pcb => { pcb with userStackPtr := ebp }) processes :=
  refines.hide p _ (fun _ => rfl) (fun _ => rfl) (fun _ => rfl)

end Refines

theorem Shows.scheduleCall {alloc : IsolatingAllocator A} {machine : Machine A} {spec : Spec}
    (shows : Shows alloc machine spec) (orderly : spec.Orderly) (action : Action) :
    (machine.scheduleCall action = none ∧ spec.scheduleCall action = none) ∨
    ∃ kernel processes, machine.scheduleCall action = some kernel ∧
      spec.scheduleCall action = some processes ∧ Refines kernel processes := by
  have refines := shows.refines
  have caller := shows.caller_eq
  cases action with
  | createProcess | fork | resume => exact Or.inl ⟨rfl, rfl⟩
  | start esp =>
      rw [Machine.scheduleCall, Spec.scheduleCall, shows.control]
      cases spec.control.inCli with
      | false => exact Or.inl ⟨rfl, rfl⟩
      | true => exact Or.inr ⟨_, _, rfl, rfl, refines⟩
  | yield ebp esp =>
      rw [Machine.scheduleCall, Spec.scheduleCall, caller]
      cases spec.caller with
      | none => exact Or.inl ⟨rfl, rfl⟩
      | some p => exact Or.inr ⟨_, _, rfl, rfl, refines.saveUserStackPtr p ebp⟩
  | wait ebp esp =>
      rw [Machine.scheduleCall, Spec.scheduleCall, caller]
      cases spec.caller with
      | none => exact Or.inl ⟨rfl, rfl⟩
      | some p =>
          obtain ⟨kernel, ran, refines', _⟩ :=
            refines.findZombieChild orderly.sound.table_nodup p (shows.enough orderly)
          simp only [Option.bind_eq_bind, Option.bind_some, ran]
          cases found : spec.processes.zombieChild p with
          | some child => exact Or.inl ⟨rfl, rfl⟩
          | none =>
              rw [found, Option.elim_none] at refines'
              exact Or.inr ⟨_, _, rfl, rfl, (refines'.setState p .blocked).saveUserStackPtr p ebp⟩
  | exit status esp =>
      rw [Machine.scheduleCall, Spec.scheduleCall, caller]
      cases called : spec.caller with
      | none => exact Or.inl ⟨rfl, rfl⟩
      | some p =>
          obtain ⟨present, runs⟩ := orderly.caller_runs called
          obtain ⟨kernel, woken, refines', _⟩ := (refines.die p status).wakeParent
            (orderly.sound.die present runs status) p (Nat.le_of_lt (shows.enough orderly))
          exact Or.inr ⟨kernel, _, woken, rfl, refines'⟩
  | stateExit ebp esp =>
      rw [Machine.scheduleCall, Spec.scheduleCall, caller]
      cases spec.caller with
      | none => exact Or.inl ⟨rfl, rfl⟩
      | some p =>
          exact Or.inr ⟨_, _, rfl, rfl, (refines.setState p .exit).saveUserStackPtr p ebp⟩

structure Arrives (before after : Processes) : Prop where
  current : after.current = before.current
  priority : ∀ a ∈ before.table, after.priority a = before.priority a
  ready : after.ready = before.ready ∨
    ∃ x, x ∉ before.ready ∧ after.ready = insertByKey after.priority x before.ready

namespace Arrives

variable {processes before after : Processes} {p : Addr}

theorem refl (processes : Processes) : Arrives processes processes :=
  ⟨rfl, fun _ _ => rfl, Or.inl rfl⟩

theorem setState (processes : Processes) (p : Addr) (state : ProcessState) :
    Arrives processes (processes.setState p state) := by
  refine ⟨rfl, ?_, Or.inl rfl⟩
  intro a _
  rw [Processes.priority, Processes.setState, Processes.proc_modify, Processes.priority]
  split <;> rfl

theorem enter (sound : processes.Sound) (fresh : p ∉ processes.table) (change : Proc → Proc) :
    Arrives processes ((processes.countPid.modify p change).enter p) := by
  have kept : ∀ a, a ≠ p →
      ((processes.countPid.modify p change).enter p).proc a = processes.proc a := by
    intro a different
    rw [Processes.proc_enter, if_neg different, Processes.proc_modify, if_neg different]
    rfl
  refine ⟨rfl, ?_, Or.inr ⟨p, ?_, rfl⟩⟩
  · intro a present
    rw [Processes.priority, kept a fun same => fresh (same ▸ present), Processes.priority]
  · intro queued
    exact fresh ((sound.ready_iff p).mp queued).1

theorem wakeParent (sound : processes.Sound) (p : Addr) :
    Arrives processes (processes.wakeParent p) := by
  rcases processes.wakeParent_cases p with ⟨same, _⟩ | ⟨q, _, blocks, woken⟩
  · rw [same]
    exact refl processes
  · rw [woken]
    have state := setState processes q .ready
    exact ⟨state.current, state.priority, Or.inr ⟨q, sound.not_ready (by simp [blocks]), rfl⟩⟩

theorem exit (sound : processes.Sound) (present : p ∈ processes.table)
    (runs : processes.state p = .running) (status : Int) :
    Arrives processes (processes.exit p status) := by
  have woken := wakeParent (sound.die present runs status) p
  refine ⟨woken.current, ?_, woken.ready⟩
  intro a inTable
  have kept := woken.priority a inTable
  rw [Processes.exit, kept, Processes.priority, Processes.proc_die, Processes.priority]
  split <;> rfl

end Arrives

/-- Nothing happens to a process of the table, unless it is a zombie that leaves. -/
structure Undisturbed (before after : Processes) : Prop where
  proc : ∀ a ∈ before.table, after.proc a = before.proc a
  stays : ∀ a ∈ before.table, before.state a ≠ .zombie → a ∈ after.table

namespace Undisturbed

variable {processes after : Processes} {p child : Addr}

theorem refl (processes : Processes) : Undisturbed processes processes :=
  ⟨fun _ _ => rfl, fun _ present _ => present⟩

theorem grow (fresh : p ∉ processes.table) (table : after.table = p :: processes.table)
    (others : ∀ a, a ≠ p → after.proc a = processes.proc a) : Undisturbed processes after := by
  refine ⟨fun a present => others a fun same => fresh (same ▸ present), ?_⟩
  intro a present _
  rw [table]
  exact List.mem_cons_of_mem p present

theorem unlink (found : processes.zombieChild p = some child) :
    Undisturbed processes (processes.unlink child) := by
  have zombie := (Spec.isZombieChild_iff.mp (Spec.zombieChild_spec found).2).2
  refine ⟨fun _ _ => rfl, ?_⟩
  intro a present other
  refine (List.mem_erase_of_ne ?_).mpr present
  intro same
  exact other (same ▸ zombie)

theorem running (undisturbed : Undisturbed processes after) (present : p ∈ processes.table)
    (runs : processes.state p = .running) : p ∈ after.table ∧ after.state p = .running := by
  refine ⟨undisturbed.stays p present (by simp [runs]), ?_⟩
  rw [Processes.state, undisturbed.proc p present]
  exact runs

end Undisturbed

namespace Spec

theorem Orderly.scheduleCall {spec : Spec} (orderly : spec.Orderly) {action : Action}
    {processes : Processes} (called : spec.scheduleCall action = some processes) :
    processes.Sound ∧ Arrives spec.processes processes ∧
      processes.table = spec.processes.table := by
  have sound := orderly.sound
  cases action with
  | createProcess | fork | resume => cases called
  | start esp =>
      simp only [Spec.scheduleCall, Option.ite_none_right_eq_some, Option.some.injEq] at called
      rw [← called.2]
      exact ⟨sound, .refl _, rfl⟩
  | yield ebp esp =>
      obtain ⟨p, _, same⟩ := Option.map_eq_some_iff.mp called
      rw [← same]
      exact ⟨sound, .refl _, rfl⟩
  | wait ebp esp =>
      obtain ⟨p, caller, called⟩ := Option.bind_eq_some_iff.mp called
      obtain ⟨present, runs⟩ := orderly.caller_runs caller
      split at called
      · cases called
      · rw [← Option.some.inj called]
        exact ⟨sound.block present runs,
          .setState .., rfl⟩
  | exit status esp =>
      obtain ⟨p, caller, same⟩ := Option.map_eq_some_iff.mp called
      obtain ⟨present, runs⟩ := orderly.caller_runs caller
      rw [← same]
      exact ⟨sound.exit present runs status, .exit sound present runs status,
        Processes.table_exit ..⟩
  | stateExit ebp esp =>
      obtain ⟨p, caller, same⟩ := Option.map_eq_some_iff.mp called
      obtain ⟨present, runs⟩ := orderly.caller_runs caller
      rw [← same]
      exact ⟨sound.stop present runs, .setState ..,
        rfl⟩

theorem Step.scheduleCall {spec next : Spec} {action : Action} (orderly : spec.Orderly)
    (step : Spec.Step spec action next) :
    (∃ processes control, spec.scheduleCall action = some processes ∧
      next = reschedule processes control) ∨
    (spec.scheduleCall action = none ∧ Arrives spec.processes next.processes ∧
      Undisturbed spec.processes next.processes ∧
      ∀ a ∈ next.processes.table, a ∉ spec.processes.table →
        next.control.born = a :: spec.control.born) := by
  have sound := orderly.sound
  have nobody : ∀ a ∈ spec.processes.table, a ∉ spec.processes.table →
      next.control.born = a :: spec.control.born := fun a present absent => absurd present absent
  have erased : ∀ child, ∀ a ∈ (spec.processes.unlink child).table, a ∉ spec.processes.table →
      next.control.born = a :: spec.control.born :=
    fun child a present absent => absurd (List.mem_of_mem_erase present) absent
  cases step with
  | created p accepts fresh =>
      refine Or.inr ⟨rfl, Arrives.enter sound fresh _, Undisturbed.grow fresh rfl ?_, ?_⟩
      · intro a different
        exact (Processes.proc_create _ p a _).trans (if_neg different)
      · intro a present absent
        rw [(List.mem_cons.mp present).resolve_right absent]
        rfl
  | notCreated accepts =>
      exact Or.inr ⟨rfl, ⟨rfl, fun _ _ => rfl, Or.inl rfl⟩,
        ⟨fun _ _ => rfl, fun _ present _ => present⟩, nobody⟩
  | started inCli => exact Or.inl ⟨_, _, if_pos inCli, rfl⟩
  | forked child caller fresh =>
      refine Or.inr ⟨rfl, Arrives.enter sound fresh _, Undisturbed.grow fresh rfl ?_, ?_⟩
      · intro a different
        exact (Processes.proc_fork _ _ a child).trans (if_neg different)
      · intro a present absent
        rw [(List.mem_cons.mp present).resolve_right absent]
        rfl
  | noChild caller => exact Or.inr ⟨rfl, .refl _, .refl _, nobody⟩
  | @lostChild _ p child caller fresh =>
      have others : ∀ a ∈ spec.processes.table,
          (spec.processes.forkChild p child).proc a = spec.processes.proc a := by
        intro a present
        have different : a ≠ child := fun same => fresh (same ▸ present)
        rw [Processes.proc_forkChild, if_neg different]
      refine Or.inr ⟨rfl, ⟨rfl, ?_, Or.inl rfl⟩, ⟨others, fun _ present _ => present⟩, nobody⟩
      intro a present
      exact congrArg Proc.priority (others a present)
  | yielded caller =>
      exact Or.inl ⟨_, _, by simp only [Spec.scheduleCall, caller, Option.map_some], rfl⟩
  | collected caller found =>
      refine Or.inr ⟨?_, ⟨rfl, fun _ _ => rfl, Or.inl rfl⟩, .unlink found, erased _⟩
      simp only [Spec.scheduleCall, caller, Option.bind_some, found]
  | suspended caller none_found =>
      refine Or.inl ⟨_, _, ?_, rfl⟩
      simp only [Spec.scheduleCall, caller, Option.bind_some, none_found]
  | resumed resumer found =>
      exact Or.inr ⟨rfl, ⟨rfl, fun _ _ => rfl, Or.inl rfl⟩, .unlink found, erased _⟩
  | missed resumer none_found => exact Or.inr ⟨rfl, .refl _, .refl _, nobody⟩
  | exited caller =>
      exact Or.inl ⟨_, _, by simp only [Spec.scheduleCall, caller, Option.map_some], rfl⟩
  | stateExited caller =>
      exact Or.inl ⟨_, _, by simp only [Spec.scheduleCall, caller, Option.map_some], rfl⟩

end Spec

end ApnaOS.Process
