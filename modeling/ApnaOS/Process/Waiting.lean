import ApnaOS.Process.Scheduler

/-!
# Waiting for something

A process blocked in `wait_syscall` is woken by the exit of a child.  When every
blocked process has a child that can still exit, and which steps break that.
-/

set_option autoImplicit false

namespace ApnaOS.Process

open ApnaOS.Lib

/-! ## In the model -/

namespace Processes

/-- The exit of `child` can still wake `p`. -/
def MayWake (processes : Processes) (p child : Addr) : Prop :=
  child ∈ processes.table ∧ processes.parent child = some p ∧ MayWait (processes.state child)

def NobodyWaitsForNothing (processes : Processes) : Prop :=
  ∀ p, processes.state p = .blocked → ∃ child, processes.MayWake p child

theorem NobodyWaitsForNothing.mono {before after : Processes}
    (holds : before.NobodyWaitsForNothing)
    (blocked : ∀ p, after.state p = .blocked → before.state p = .blocked)
    (kept : ∀ p child, after.state p = .blocked → before.MayWake p child →
      after.MayWake p child) : after.NobodyWaitsForNothing := by
  intro p blocks
  obtain ⟨child, wakes⟩ := holds p (blocked p blocks)
  exact ⟨child, kept p child blocks wakes⟩

namespace SameButTurns

variable {before after : Processes}

theorem mayWait_iff (turns : SameButTurns before after) (a : Addr) :
    MayWait (after.state a) ↔ MayWait (before.state a) :=
  or_congr (turns.state_iff a (by simp [Awake])) (turns.awake_iff a)

theorem mayWake_iff (turns : SameButTurns before after) (p child : Addr) :
    after.MayWake p child ↔ before.MayWake p child := by
  rw [MayWake, MayWake, turns.table, turns.parent_eq, turns.mayWait_iff]

theorem nobodyWaits_iff (turns : SameButTurns before after) :
    after.NobodyWaitsForNothing ↔ before.NobodyWaitsForNothing := by
  refine forall_congr' fun p => ?_
  rw [turns.state_iff p (by simp [Awake])]
  exact imp_congr_right fun _ => exists_congr fun child => turns.mayWake_iff p child

end SameButTurns

theorem NobodyWaitsForNothing.grow {before after : Processes} {p : Addr}
    (holds : before.NobodyWaitsForNothing) (fresh : p ∉ before.table)
    (table : before.table ⊆ after.table)
    (old : ∀ a, a ≠ p → after.proc a = before.proc a) (awake : after.state p ≠ .blocked) :
    after.NobodyWaitsForNothing := by
  refine holds.mono ?_ ?_
  · intro q blocks
    have different : q ≠ p := fun same => awake (same ▸ blocks)
    rwa [Processes.state, old q different] at blocks
  · intro q child _ wakes
    have different : child ≠ p := fun same => fresh (same ▸ wakes.1)
    rw [MayWake, Processes.parent, Processes.state, old child different]
    exact ⟨table wakes.1, wakes.2⟩

theorem NobodyWaitsForNothing.unlink {processes : Processes} {child : Addr}
    (holds : processes.NobodyWaitsForNothing) (zombie : processes.state child = .zombie) :
    (processes.unlink child).NobodyWaitsForNothing := by
  refine holds.mono (fun _ blocks => blocks) ?_
  intro p other _ wakes
  have different : other ≠ child := by
    intro same
    have may := wakes.2.2
    rw [same, zombie] at may
    simp [MayWait, Awake] at may
  exact ⟨(List.mem_erase_of_ne different).mpr wakes.1, wakes.2⟩

theorem nobodyWaits_block_iff {processes : Processes} {p : Addr}
    (holds : processes.NobodyWaitsForNothing) (runs : processes.state p = .running) :
    (processes.setState p .blocked).NobodyWaitsForNothing ↔
      ∃ child, processes.MayWake p child := by
  have same : ∀ q child, (processes.setState p .blocked).MayWake q child ↔
      processes.MayWake q child := by
    intro q child
    rw [MayWake, MayWake, parent_setState, state_setState]
    by_cases equal : child = p
    · simp [equal, runs, MayWait, Awake]
    · simp [equal]
  constructor
  · intro safe
    obtain ⟨child, wakes⟩ := safe p ((state_setState_iff ..).mpr (Or.inl ⟨rfl, rfl⟩))
    exact ⟨child, (same p child).mp wakes⟩
  · intro some_child q blocks
    rcases (state_setState_iff ..).mp blocks with ⟨equal, _⟩ | ⟨_, old⟩
    · obtain ⟨child, wakes⟩ := some_child
      rw [equal]
      exact ⟨child, (same p child).mpr wakes⟩
    · obtain ⟨child, wakes⟩ := holds q old
      exact ⟨child, (same q child).mpr wakes⟩

/-- Another child can wake the blocked parent of `p`, if it has one. -/
def LeavesNobody (processes : Processes) (p : Addr) : Prop :=
  ∀ parent, processes.parent p = some parent → processes.state parent = .blocked →
    ∃ child, child ≠ p ∧ processes.MayWake parent child

/-- Setting the state to `STATE_EXIT` is safe exactly if the process is not the last
that can wake its parent. -/
theorem nobodyWaits_stop_iff {processes : Processes} {p : Addr}
    (holds : processes.NobodyWaitsForNothing) (runs : processes.state p = .running) :
    (processes.setState p .exit).NobodyWaitsForNothing ↔ processes.LeavesNobody p := by
  have same : ∀ q child, (processes.setState p .exit).MayWake q child ↔
      child ≠ p ∧ processes.MayWake q child := by
    intro q child
    rw [MayWake, MayWake, parent_setState, state_setState]
    by_cases equal : child = p
    · simp [equal, MayWait, Awake]
    · simp [equal]
  constructor
  · intro safe parent _ blocks
    have different : parent ≠ p := by
      intro equal
      rw [equal, runs] at blocks
      cases blocks
    obtain ⟨child, wakes⟩ := safe parent ((state_setState_iff ..).mpr (Or.inr ⟨different, blocks⟩))
    exact ⟨child, (same parent child).mp wakes⟩
  · intro leaves q blocks
    rcases (state_setState_iff ..).mp blocks with ⟨_, clash⟩ | ⟨_, old⟩
    · cases clash
    · obtain ⟨child, wakes⟩ := holds q old
      by_cases equal : child = p
      · obtain ⟨other, wakes'⟩ := leaves q (equal ▸ wakes.2.1) old
        exact ⟨other, (same q other).mpr wakes'⟩
      · exact ⟨child, (same q child).mpr ⟨equal, wakes⟩⟩

/-- `exit_syscall` wakes the parent, so it leaves nobody behind. -/
theorem NobodyWaitsForNothing.exit {processes : Processes} {p : Addr}
    (holds : processes.NobodyWaitsForNothing) (status : Int) :
    (processes.exit p status).NobodyWaitsForNothing := by
  have other : ∀ q, (processes.exit p status).state q = .blocked →
      q ≠ p ∧ processes.state q = .blocked ∧ processes.parent p ≠ some q := by
    intro q blocks
    have different : q ≠ p := by
      intro equal
      rw [equal, state, proc_exit_self] at blocks
      cases blocks
    rw [state] at blocks
    rcases processes.proc_exit_of_ne different status with ⟨same, not_woken⟩ | ⟨_, _, woken⟩
    · rw [same] at blocks
      exact ⟨different, blocks, fun parent => not_woken parent blocks⟩
    · rw [woken] at blocks
      cases blocks
  refine holds.mono (fun q blocks => (other q blocks).2.1) ?_
  intro q child blocks wakes
  have different : child ≠ p := by
    intro equal
    rw [equal] at wakes
    exact (other q blocks).2.2 wakes.2.1
  rw [MayWake, table_exit, parent, state]
  rcases processes.proc_exit_of_ne different status with ⟨same, _⟩ | ⟨_, _, woken⟩
  · rw [same]
    exact wakes
  · rw [woken]
    exact ⟨wakes.1, wakes.2.1, Or.inr (Or.inl rfl)⟩

end Processes

namespace Spec

def Meets (spec : Spec) : Action → Prop
  | .wait _ _ => ∀ p, spec.caller = some p →
      (spec.processes.zombieChild p).isSome ∨ ∃ child, spec.processes.MayWake p child
  | .stateExit _ _ => ∀ p, spec.caller = some p → spec.processes.LeavesNobody p
  | _ => True

theorem reschedule_nobodyWaits_iff {processes : Processes} (sound : processes.Sound)
    (control : Control) : (reschedule processes control).processes.NobodyWaitsForNothing ↔
      processes.NobodyWaitsForNothing := sound.schedule_turns.nobodyWaits_iff

theorem nobodyWaits_step_iff {spec next : Spec} {action : Action} (orderly : spec.Orderly)
    (holds : spec.processes.NobodyWaitsForNothing) (taken : Step spec action next) :
    next.processes.NobodyWaitsForNothing ↔ spec.Meets action := by
  have sound := orderly.sound
  cases taken with
  | @created e priority d t p accepts fresh =>
      refine iff_of_true (holds.grow fresh (List.subset_cons_self _ _) ?_ ?_) trivial
      · intro a different
        rw [Processes.proc_create, if_neg different]
      · rw [Processes.state, Processes.proc_create, if_pos rfl]
        simp
  | notCreated accepts => exact iff_of_true holds trivial
  | started inCli => exact (reschedule_nobodyWaits_iff sound _).trans (iff_of_true holds trivial)
  | @forked ebp p child caller fresh =>
      refine iff_of_true (holds.grow fresh (List.subset_cons_self _ _) ?_ ?_) trivial
      · intro a different
        rw [Processes.proc_fork, if_neg different]
      · rw [Processes.state, Processes.proc_fork, if_pos rfl]
        simp
  | noChild caller => exact iff_of_true holds trivial
  | @lostChild ebp p child caller fresh =>
      refine iff_of_true (holds.grow fresh (List.Subset.refl _) ?_ ?_) trivial
      · intro a different
        rw [Processes.proc_forkChild, if_neg different]
      · rw [Processes.state, Processes.proc_forkChild, if_pos rfl]
        exact fun blocks => fresh (sound.blocked child blocks)
  | yielded caller => exact (reschedule_nobodyWaits_iff sound _).trans (iff_of_true holds trivial)
  | @collected ebp esp p child caller found =>
      have zombie := (isZombieChild_iff.mp (zombieChild_spec found).2).2
      apply iff_of_true (holds.unlink zombie)
      intro q caller'
      rw [caller', Option.some.injEq] at caller
      rw [caller, found]
      exact Or.inl rfl
  | @suspended ebp esp p caller none_found =>
      obtain ⟨present, runs⟩ := orderly.caller_runs caller
      have sound' := sound.block present runs
      rw [reschedule_nobodyWaits_iff sound', Processes.nobodyWaits_block_iff holds runs]
      simp [Meets, caller, none_found]
  | @resumed p child resumer found =>
      have zombie := (isZombieChild_iff.mp (zombieChild_spec found).2).2
      exact iff_of_true (holds.unlink zombie) trivial
  | missed resumer none_found => exact iff_of_true holds trivial
  | @exited status esp p caller =>
      obtain ⟨present, runs⟩ := orderly.caller_runs caller
      rw [reschedule_nobodyWaits_iff (sound.exit present runs status)]
      exact iff_of_true (holds.exit status) trivial
  | @stateExited ebp esp p caller =>
      obtain ⟨present, runs⟩ := orderly.caller_runs caller
      have sound' := sound.stop present runs
      rw [reschedule_nobodyWaits_iff sound', Processes.nobodyWaits_stop_iff holds runs]
      simp [Meets, caller]

end Spec

/-! ## In the kernel -/

variable {A : Type}

namespace Kernel

def InTable (kernel : Kernel A) (p : Addr) : Prop :=
  ∃ table, Chain kernel.pcb.nextInTable kernel.processTableHead table none ∧ p ∈ table

/-- A child in the process table that is ready, running or blocked, and whose exit
finds `p` through its parent pointer. -/
def MayWake (kernel : Kernel A) (p child : Addr) : Prop :=
  kernel.InTable child ∧ (kernel.pcb child).parent = some p ∧
    ((kernel.pcb child).state = .blocked ∨ (kernel.pcb child).state = .ready ∨
      (kernel.pcb child).state = .running)

def NobodyWaitsForNothing (kernel : Kernel A) : Prop :=
  ∀ p, kernel.InTable p → (kernel.pcb p).state = .blocked → ∃ child, kernel.MayWake p child

/-- `find_zombie_child` finds something. -/
def HasZombieChild (kernel : Kernel A) (p : Addr) : Prop :=
  ∃ child, kernel.InTable child ∧ kernel.pidOf (kernel.pcb child).parent = (kernel.pcb p).pid ∧
    (kernel.pcb child).state = .zombie

end Kernel

/-- A wait that finds no zombie has a child that may wake it, and a process that ends
through `STATE_EXIT` is not the last one that may wake its blocked parent. -/
def Machine.Meets (machine : Machine A) : Action → Prop
  | .wait _ _ => ∀ p, machine.caller = some p →
      machine.kernel.HasZombieChild p ∨ ∃ child, machine.kernel.MayWake p child
  | .stateExit _ _ => ∀ p, machine.caller = some p →
      ∀ parent, (machine.kernel.pcb p).parent = some parent →
        (machine.kernel.pcb parent).state = .blocked →
          ∃ child, child ≠ p ∧ machine.kernel.MayWake parent child
  | _ => True

namespace Refines

variable {kernel : Kernel A} {processes : Processes}

theorem inTable_iff (refines : Refines kernel processes) (p : Addr) :
    kernel.InTable p ↔ p ∈ processes.table := by
  constructor
  · intro inTable
    obtain ⟨table, chain, present⟩ := inTable
    rw [refines.table.unique chain]
    exact present
  · intro present
    exact ⟨processes.table, refines.table, present⟩

theorem mayWake_iff (refines : Refines kernel processes) (p child : Addr) :
    kernel.MayWake p child ↔ processes.MayWake p child := by
  rw [Kernel.MayWake, refines.inTable_iff, refines.parent_eq, refines.state_eq]
  rfl

theorem nobodyWaits_iff (refines : Refines kernel processes) (sound : processes.Sound) :
    kernel.NobodyWaitsForNothing ↔ processes.NobodyWaitsForNothing := by
  refine forall_congr' fun p => ?_
  rw [refines.inTable_iff, refines.state_eq]
  simp only [refines.mayWake_iff]
  exact ⟨fun safe blocks => safe (sound.blocked p blocks) blocks, fun safe _ => safe⟩

theorem hasZombieChild_iff (refines : Refines kernel processes) (p : Addr) :
    kernel.HasZombieChild p ↔ (processes.zombieChild p).isSome = true := by
  rw [Processes.zombieChild, List.find?_isSome]
  refine exists_congr fun child => ?_
  rw [refines.inTable_iff, refines.test_iff]

end Refines

theorem Shows.meets_iff {alloc : IsolatingAllocator A} {machine : Machine A} {spec : Spec}
    (shows : Shows alloc machine spec) (action : Action) :
    machine.Meets action ↔ spec.Meets action := by
  have refines := shows.refines
  cases action with
  | wait ebp esp =>
      simp only [Machine.Meets, Spec.Meets, shows.caller_eq, refines.hasZombieChild_iff,
        refines.mayWake_iff]
  | stateExit ebp esp =>
      simp only [Machine.Meets, Spec.Meets, Processes.LeavesNobody, shows.caller_eq,
        refines.parent_eq, refines.state_eq, refines.mayWake_iff]
  | _ => exact Iff.rfl

/-- In a run every blocked process always has a child that can still wake it, exactly
if every step of the run meets the condition. -/
theorem nobody_waits_for_nothing_iff (alloc : IsolatingAllocator A) {first last : Machine A}
    {trace : List (Transition (Machine A) Action)}
    (initial : (processSystem alloc.toAllocator).initial first)
    (run : (processSystem alloc.toAllocator).Trace first trace last) :
    (∀ transition ∈ trace, transition.after.kernel.NobodyWaitsForNothing) ↔
      ∀ transition ∈ trace, transition.before.Meets transition.action := by
  refine run.good_iff (MachineInvariant alloc) (fun machine => machine.kernel.NobodyWaitsForNothing)
    Machine.Meets ?_ (machineInvariant_initial alloc initial) ?_
  · intro machine action next invariant holds taken
    obtain ⟨spec, shows, orderly⟩ := invariant
    obtain ⟨next', spec', simulated⟩ := shows.simulate orderly (enabled_of_step taken)
    have same : next = next' := Option.some.inj (taken.symm.trans simulated.taken)
    have orderly' := orderly.step simulated.step
    rw [same]
    refine ⟨?_, fun _ => ⟨spec', simulated.shows, orderly'⟩⟩
    rw [simulated.shows.refines.nobodyWaits_iff orderly'.sound, shows.meets_iff]
    exact Spec.nobodyWaits_step_iff orderly
      ((shows.refines.nobodyWaits_iff orderly.sound).mp holds) simulated.step
  · intro p inTable blocks
    rw [initial.pcb] at blocks
    cases blocks

theorem nobody_waits_for_nothing_iff_forkExitWait : ∃ trace last,
    (processSystem heapAllocator.toAllocator).record bootMachine forkExitWait =
        some (trace, last) ∧
      ((∀ transition ∈ trace, transition.after.kernel.NobodyWaitsForNothing) ↔
        ∀ transition ∈ trace, transition.before.Meets transition.action) := by
  obtain ⟨trace, last, recorded⟩ := forkExitWait_recorded
  exact ⟨trace, last, recorded, nobody_waits_for_nothing_iff heapAllocator bootMachine_initial
    (System.trace_of_record recorded)⟩

/-- A process without children waits: the CLI creates it, starts it, and its
`wait_syscall` blocks it for good. -/
theorem childless_wait_blocks : ¬ ∀ machine,
    (processSystem heapAllocator.toAllocator).Reachable machine →
      machine.kernel.NobodyWaitsForNothing := by
  intro always
  obtain ⟨created, started, waiting, create, start, wait, head, last, blocked, orphan⟩ :
      ∃ created started waiting,
        (processSystem heapAllocator.toAllocator).step bootMachine (.createProcess 0 1 1 2) =
          some created ∧
        (processSystem heapAllocator.toAllocator).step created (.start 0) = some started ∧
        (processSystem heapAllocator.toAllocator).step started (.wait 0 0) = some waiting ∧
        waiting.kernel.processTableHead = some 8 ∧ (waiting.kernel.pcb 8).nextInTable = none ∧
        (waiting.kernel.pcb 8).state = .blocked ∧ (waiting.kernel.pcb 8).parent = none :=
    ⟨_, _, _, rfl, rfl, rfl, rfl, rfl, rfl, rfl⟩
  have reached := (((System.reachable_initial bootMachine_initial).step create).step start).step wait
  have table : Chain waiting.kernel.pcb.nextInTable waiting.kernel.processTableHead [8] none :=
    ⟨head, last⟩
  obtain ⟨child, inTable, parent, _⟩ := always waiting reached 8 ⟨[8], table, by simp⟩ blocked
  obtain ⟨items, chain, present⟩ := inTable
  rw [← table.unique chain, List.mem_singleton] at present
  rw [present, orphan] at parent
  cases parent

end ApnaOS.Process
