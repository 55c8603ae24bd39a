import ApnaOS.Process.Orderly
import ApnaOS.Process.Simulation

/-!
# The scheduler state

Every run of the kernel is a run of the model, so the lists that hang together
through `next` and `next_in_table` are the lists of the model in every state.
-/

set_option autoImplicit false

namespace ApnaOS.Process

open ApnaOS.Lib

variable {A : Type}

/-- The machine shows this state of the model, and what is in the table is allocated. -/
structure Shows (alloc : IsolatingAllocator A) (machine : Machine A) (spec : Spec) : Prop where
  refines : Refines machine.kernel spec.processes
  control : machine.control = spec.control
  live : ∀ p ∈ spec.processes.table, alloc.live machine.kernel.allocator p

def AllocatorStep (alloc : IsolatingAllocator A) (a a' : A) : Prop :=
  Grows alloc a a' ∨ ∃ p, alloc.live a p ∧ a' = alloc.kfree a (some p)

/-- What a step of the machine is in the model.  A process that is born in it was not
in use before, and outside the table only memory that becomes used is written. -/
structure Simulated (alloc : IsolatingAllocator A) (machine : Machine A) (spec : Spec)
    (action : Action) (next : Machine A) (next' : Spec) : Prop where
  taken : machine.step alloc.toAllocator action = some next
  step : Spec.Step spec action next'
  shows : Shows alloc next next'
  memory : AllocatorStep alloc machine.kernel.allocator next.kernel.allocator
  born : ∀ p, next'.control.born = p :: spec.control.born →
    ¬ alloc.live machine.kernel.allocator p ∧ alloc.live next.kernel.allocator p
  untouched : ∀ p, p ∉ spec.processes.table →
    (alloc.live machine.kernel.allocator p ∨ ¬ alloc.live next.kernel.allocator p) →
      next'.processes.proc p = spec.processes.proc p

namespace Shows

variable {alloc : IsolatingAllocator A} {machine : Machine A} {spec : Spec} {p : Addr}

theorem caller_eq (shows : Shows alloc machine spec) : machine.caller = spec.caller := by
  rw [Machine.caller, Spec.caller, shows.control, shows.refines.current]

theorem resumer_eq (shows : Shows alloc machine spec) : machine.resumer = spec.resumer := by
  rw [Machine.resumer, Spec.resumer, shows.control, shows.refines.current]

theorem enough (shows : Shows alloc machine spec) (orderly : spec.Orderly) :
    spec.processes.table.length < machine.fuel := by
  have counted := orderly.accounted.history.length_eq
  have events : spec.control.born.length ≤ spec.control.history.length :=
    List.length_filterMap_le _ _
  rw [List.length_append] at counted
  rw [Machine.fuel, shows.control]
  omega

theorem switch (shows : Shows alloc machine spec) {action : Action} {processes : Processes}
    {control : Control} {kernel : Kernel A}
    (step : Spec.Step spec action (Spec.reschedule processes control)) (sound : processes.Sound)
    (refines : Refines kernel processes.schedule.2)
    (table : processes.table = spec.processes.table)
    (outside : ∀ q, q ∉ spec.processes.table → processes.proc q = spec.processes.proc q)
    (allocator : kernel.allocator = machine.kernel.allocator)
    (born : control.born = spec.control.born)
    (taken : machine.step alloc.toAllocator action =
      some ⟨kernel, control.switch processes.schedule.1⟩) :
    Simulated alloc machine spec action ⟨kernel, control.switch processes.schedule.1⟩
      (Spec.reschedule processes control) := by
  refine ⟨taken, step, ⟨refines, rfl, ?_⟩, Or.inl ?_, ?_, ?_⟩
  · intro q present
    rw [Spec.reschedule, Processes.table_schedule, table] at present
    rw [allocator]
    exact shows.live q present
  · intro q used
    rw [allocator]
    exact used
  · intro q same
    have longer := congrArg List.length (born.symm.trans same)
    simp at longer
  · intro q absent _
    exact (sound.schedule_turns.outside q (by rwa [table])).trans (outside q absent)

theorem reap (shows : Shows alloc machine spec) (sound : spec.processes.Sound) {action : Action}
    {control : Control} {kernel : Kernel A} {child : Addr}
    (step : Spec.Step spec action ⟨spec.processes.unlink child, control⟩)
    (present : child ∈ spec.processes.table)
    (refines : Refines kernel (spec.processes.unlink child))
    (allocator : kernel.allocator = alloc.kfree machine.kernel.allocator (some child))
    (born : control.born = spec.control.born)
    (taken : machine.step alloc.toAllocator action = some ⟨kernel, control⟩) :
    Simulated alloc machine spec action ⟨kernel, control⟩
      ⟨spec.processes.unlink child, control⟩ := by
  refine ⟨taken, step, ⟨refines, rfl, ?_⟩, Or.inr ⟨child, shows.live child present, allocator⟩, ?_,
    fun _ _ _ => rfl⟩
  · intro q present'
    have kept := sound.table_nodup.mem_erase_iff.mp present'
    rw [allocator]
    exact alloc.frees (shows.live child present) kept.1 (shows.live q kept.2)
  · intro q same
    have longer := congrArg List.length (born.symm.trans same)
    simp at longer

theorem stay (shows : Shows alloc machine spec) {action : Action} {processes : Processes}
    {control : Control} {kernel : Kernel A}
    (step : Spec.Step spec action ⟨processes, control⟩) (refines : Refines kernel processes)
    (table : processes.table = spec.processes.table)
    (outside : ∀ q, (alloc.live machine.kernel.allocator q ∨ ¬ alloc.live kernel.allocator q) →
      processes.proc q = spec.processes.proc q)
    (grows : Grows alloc machine.kernel.allocator kernel.allocator)
    (born : control.born = spec.control.born)
    (taken : machine.step alloc.toAllocator action = some ⟨kernel, control⟩) :
    Simulated alloc machine spec action ⟨kernel, control⟩ ⟨processes, control⟩ := by
  refine ⟨taken, step, ⟨refines, rfl, ?_⟩, Or.inl grows, ?_, fun q _ => outside q⟩
  · intro q present
    rw [table] at present
    exact grows q (shows.live q present)
  · intro q same
    have longer := congrArg List.length (born.symm.trans same)
    simp at longer

theorem grow (shows : Shows alloc machine spec) {action : Action} {processes : Processes}
    {event : Event} {kernel : Kernel A} {p : Addr}
    (step : Spec.Step spec action ⟨processes, spec.control.log event⟩)
    (refines : Refines kernel processes) (table : processes.table = p :: spec.processes.table)
    (others : ∀ q, q ≠ p → processes.proc q = spec.processes.proc q)
    (grows : Grows alloc machine.kernel.allocator kernel.allocator)
    (unused : ¬ alloc.live machine.kernel.allocator p) (used : alloc.live kernel.allocator p)
    (born : event.born = some p)
    (taken : machine.step alloc.toAllocator action = some ⟨kernel, spec.control.log event⟩) :
    Simulated alloc machine spec action ⟨kernel, spec.control.log event⟩
      ⟨processes, spec.control.log event⟩ := by
  refine ⟨taken, step, ⟨refines, rfl, ?_⟩, Or.inl grows, ?_, ?_⟩
  · intro q present
    rw [table] at present
    rcases List.mem_cons.mp present with same | old
    · rw [same]
      exact used
    · exact grows q (shows.live q old)
  · intro q same
    rw [Control.born, Control.log, List.filterMap_cons_some born] at same
    rw [← (List.cons.inj same).1]
    exact ⟨unused, used⟩
  · intro q _ memory
    apply others q
    intro same
    rw [same] at memory
    rcases memory with old | gone
    · exact unused old
    · exact gone used

theorem simulate_create (shows : Shows alloc machine spec) (orderly : spec.Orderly) {e : Nat}
    {priority d t : Int} (enabled : machine.Enabled (.createProcess e priority d t)) :
    ∃ next next', Simulated alloc machine spec (.createProcess e priority d t) next next' := by
  have enough := shows.enough orderly
  have refines := shows.refines
  have sound := orderly.sound
  have accepts : spec.control.inCli = true ∨ spec.caller.isSome = true := by
    rw [← shows.caller_eq, ← shows.control]
    exact enabled
  obtain ⟨process, kernel, ran, grows, result⟩ :=
    refines.countPid.createProcess sound.countPid alloc shows.live
      (machine.kernel.nextPid % wordRange) e priority d t (Nat.le_of_lt enough)
  rw [Machine.Enabled] at enabled
  cases process with
  | none =>
      refine ⟨_, _, shows.stay (.notCreated accepts) result rfl (fun _ _ => rfl) grows rfl ?_⟩
      simp only [Machine.step, enabled, if_true, Kernel.getNewPid] at ran ⊢
      simp only [ran, Option.bind_eq_bind, Option.bind_some, shows.control]
  | some p =>
      obtain ⟨unused, used, created⟩ := result
      rw [refines.nextPid] at created
      have fresh : p ∉ spec.processes.table := fun present => unused (shows.live p present)
      refine ⟨_, _, shows.grow (.created p accepts fresh) created rfl ?_ grows unused used
        rfl ?_⟩
      · intro q different
        have kept := Processes.proc_create spec.processes p q priority
        rwa [if_neg different] at kept
      · simp only [Machine.step, enabled, if_true, Kernel.getNewPid] at ran ⊢
        simp only [ran, Option.bind_eq_bind, Option.bind_some, shows.control]

theorem simulate_fork (shows : Shows alloc machine spec) (orderly : spec.Orderly) {ebp : Nat}
    (caller : machine.caller = some p) :
    ∃ next next', Simulated alloc machine spec (.fork ebp) next next' := by
  have enough := shows.enough orderly
  have refines := shows.refines
  have sound := orderly.sound
  have caller' : spec.caller = some p := shows.caller_eq ▸ caller
  obtain ⟨child, kernel, ran, grows, result⟩ :=
    refines.forkSyscall sound alloc shows.live ebp p (Nat.le_of_lt enough)
  cases child with
  | none =>
      rcases result with refines' | ⟨child, unused, used, refines'⟩
      · refine ⟨_, _, shows.stay (.noChild caller') refines' rfl (fun _ _ => rfl) grows rfl ?_⟩
        simp only [Machine.step, caller, ran, Option.bind_eq_bind, Option.bind_some,
          shows.control]
      · have fresh : child ∉ spec.processes.table :=
          fun present => unused (shows.live child present)
        refine ⟨_, _, shows.stay (.lostChild child caller' fresh) refines' rfl ?_ grows rfl ?_⟩
        · intro q memory
          rw [Processes.proc_forkChild, if_neg]
          intro same
          rw [same] at memory
          rcases memory with old | gone
          · exact unused old
          · exact gone used
        · simp only [Machine.step, caller, ran, Option.bind_eq_bind, Option.bind_some,
            shows.control]
  | some child =>
      obtain ⟨unused, used, forked⟩ := result
      have fresh : child ∉ spec.processes.table :=
        fun present => unused (shows.live child present)
      have pid : (kernel.pcb child).pid = spec.processes.nextPid % wordRange := by
        have shown := congrArg Proc.pid (forked.proc child)
        rw [Processes.proc_fork, if_pos rfl] at shown
        exact shown
      refine ⟨_, _, shows.grow (.forked child caller' fresh) forked rfl ?_ grows unused used
        rfl ?_⟩
      · intro q different
        rw [Processes.proc_fork, if_neg different]
      · simp only [Machine.step, caller, ran, Option.bind_eq_bind, Option.bind_some,
          shows.control, pid]

theorem simulate_wait (shows : Shows alloc machine spec) (orderly : spec.Orderly) {ebp esp : Nat}
    (caller : machine.caller = some p) :
    ∃ next next', Simulated alloc machine spec (.wait ebp esp) next next' := by
  have enough := shows.enough orderly
  have refines := shows.refines
  have sound := orderly.sound
  have caller' : spec.caller = some p := shows.caller_eq ▸ caller
  obtain ⟨present, runs⟩ := orderly.caller_runs caller'
  cases found : spec.processes.zombieChild p with
  | some child =>
      obtain ⟨kernel, ran, refines', allocator⟩ := refines.waitSyscall_returns
        sound.table_nodup alloc.toAllocator ebp esp enough found
      refine ⟨_, _, shows.reap sound (.collected caller' found) (Spec.zombieChild_spec found).1
        refines' allocator rfl ?_⟩
      simp only [Machine.step, caller, ran, Option.bind_eq_bind, Option.bind_some,
        shows.control]
  | none =>
      obtain ⟨kernel, ran, refines', allocator⟩ := refines.waitSyscall_suspends sound
        alloc.toAllocator ebp esp present runs enough found
      have sound' := sound.block present runs
      refine ⟨_, _, shows.switch (.suspended caller' found) sound' refines' rfl ?_ allocator
        rfl ?_⟩
      · intro q absent
        exact Processes.proc_setState_of_ne _ _ _ _ fun same => absent (same ▸ present)
      · simp only [Machine.step, caller, ran, Option.bind_eq_bind, Option.bind_some,
          shows.control]

theorem simulate_resume (shows : Shows alloc machine spec) (orderly : spec.Orderly)
    (resumer : machine.resumer = some p) :
    ∃ next next', Simulated alloc machine spec .resume next next' := by
  have enough := shows.enough orderly
  have refines := shows.refines
  have sound := orderly.sound
  have resumer' : spec.resumer = some p := shows.resumer_eq ▸ resumer
  rcases refines.waitResumed sound.table_nodup alloc.toAllocator p enough with
    ⟨child, kernel, found, ran, refines', allocator⟩ | ⟨kernel, found, ran, refines', allocator⟩
  · refine ⟨_, _, shows.reap sound (.resumed resumer' found) (Spec.zombieChild_spec found).1
      refines' allocator rfl ?_⟩
    simp only [Machine.step, resumer, ran, Option.bind_eq_bind, Option.bind_some,
      shows.control]
  · refine ⟨_, _, shows.stay (.missed resumer' found) refines' rfl (fun _ _ => rfl) ?_ rfl ?_⟩
    · intro q used
      rw [allocator]
      exact used
    · simp only [Machine.step, resumer, ran, Option.bind_eq_bind, Option.bind_some,
        shows.control]

theorem simulate_exit (shows : Shows alloc machine spec) (orderly : spec.Orderly)
    {status : Int} {esp : Nat} (caller : machine.caller = some p) :
    ∃ next next', Simulated alloc machine spec (.exit status esp) next next' := by
  have enough := shows.enough orderly
  have refines := shows.refines
  have sound := orderly.sound
  have caller' : spec.caller = some p := shows.caller_eq ▸ caller
  obtain ⟨present, runs⟩ := orderly.caller_runs caller'
  obtain ⟨kernel, ran, refines', allocator⟩ :=
    refines.exitSyscall sound present runs esp status (Nat.le_of_lt enough)
  refine ⟨_, _, shows.switch (.exited caller') (sound.exit present runs status) refines'
    (Processes.table_exit ..) (fun q absent => sound.proc_exit_outside present absent status)
    allocator rfl ?_⟩
  simp only [Machine.step, caller, ran, Option.bind_eq_bind, Option.bind_some, shows.control]
  rfl

theorem simulate_stateExit (shows : Shows alloc machine spec) (orderly : spec.Orderly)
    {ebp esp : Nat} (caller : machine.caller = some p) :
    ∃ next next', Simulated alloc machine spec (.stateExit ebp esp) next next' := by
  have enough := shows.enough orderly
  have refines := shows.refines
  have sound := orderly.sound
  have caller' : spec.caller = some p := shows.caller_eq ▸ caller
  obtain ⟨present, runs⟩ := orderly.caller_runs caller'
  have sound' := sound.stop present runs
  obtain ⟨kernel, ran, refines', allocator⟩ :=
    (refines.setState p .exit).yieldSyscall sound' p ebp esp (Nat.le_of_lt enough)
  refine ⟨_, _, shows.switch (.stateExited caller') sound' refines' rfl ?_ allocator rfl ?_⟩
  · intro q absent
    exact Processes.proc_setState_of_ne _ _ _ _ fun same => absent (same ▸ present)
  · simp only [Machine.step, caller, stateExit, ran, Option.bind_eq_bind, Option.bind_some,
      shows.control]

theorem simulate (shows : Shows alloc machine spec) (orderly : spec.Orderly) {action : Action}
    (enabled : machine.Enabled action) :
    ∃ next next', Simulated alloc machine spec action next next' := by
  have enough := shows.enough orderly
  have refines := shows.refines
  have sound := orderly.sound
  cases action with
  | createProcess e priority d t => exact shows.simulate_create orderly enabled
  | start esp =>
      obtain ⟨kernel, ran, refines', allocator⟩ := refines.schedule sound esp (Nat.le_of_lt enough)
      have inCli : spec.control.inCli = true := shows.control ▸ enabled
      refine ⟨_, _, shows.switch (.started inCli) sound refines' rfl (fun _ _ => rfl) allocator
        rfl ?_⟩
      simp only [Machine.step, shows.control, inCli, if_true, ran, Option.bind_eq_bind,
        Option.bind_some]
  | fork ebp =>
      obtain ⟨p, caller⟩ := Option.isSome_iff_exists.mp enabled
      exact shows.simulate_fork orderly caller
  | yield ebp esp =>
      obtain ⟨p, caller⟩ := Option.isSome_iff_exists.mp enabled
      obtain ⟨kernel, ran, refines', allocator⟩ :=
        refines.yieldSyscall sound p ebp esp (Nat.le_of_lt enough)
      refine ⟨_, _, shows.switch (.yielded (shows.caller_eq ▸ caller)) sound refines' rfl
        (fun _ _ => rfl) allocator rfl ?_⟩
      simp only [Machine.step, caller, ran, Option.bind_eq_bind, Option.bind_some, shows.control]
  | wait ebp esp =>
      obtain ⟨p, caller⟩ := Option.isSome_iff_exists.mp enabled
      exact shows.simulate_wait orderly caller
  | resume =>
      obtain ⟨p, resumer⟩ := Option.isSome_iff_exists.mp enabled
      exact shows.simulate_resume orderly resumer
  | exit status esp =>
      obtain ⟨p, caller⟩ := Option.isSome_iff_exists.mp enabled
      exact shows.simulate_exit orderly caller
  | stateExit ebp esp =>
      obtain ⟨p, caller⟩ := Option.isSome_iff_exists.mp enabled
      exact shows.simulate_stateExit orderly caller

end Shows

theorem enabled_of_step {alloc : Allocator A} {machine next : Machine A} {action : Action}
    (taken : machine.step alloc action = some next) : machine.Enabled action := by
  cases action with
  | createProcess e priority d t =>
      by_contra disabled
      rw [Machine.Enabled] at disabled
      simp only [Machine.step, disabled, if_false, reduceCtorEq] at taken
  | start esp =>
      by_contra disabled
      rw [Machine.Enabled] at disabled
      simp only [Machine.step, disabled, if_false, reduceCtorEq] at taken
  | resume =>
      obtain ⟨p, resumer, _⟩ := Option.bind_eq_some_iff.mp taken
      exact Option.isSome_iff_exists.mpr ⟨p, resumer⟩
  | fork ebp | yield ebp esp | wait ebp esp | exit status esp | stateExit ebp esp =>
      obtain ⟨p, caller, _⟩ := Option.bind_eq_some_iff.mp taken
      exact Option.isSome_iff_exists.mpr ⟨p, caller⟩

/-! ## Every reachable state -/

def MachineInvariant (alloc : IsolatingAllocator A) (machine : Machine A) : Prop :=
  ∃ spec, Shows alloc machine spec ∧ spec.Orderly

theorem machineInvariant_initial (alloc : IsolatingAllocator A) {machine : Machine A}
    (initial : machine.Initial) : MachineInvariant alloc machine := by
  refine ⟨⟨⟨[], [], fun _ => Pcb.zero.proc, none, 1, machine.kernel.pidAtNull⟩,
    ⟨true, fun _ => false, []⟩⟩, ⟨⟨⟨?_, ?_⟩, ?_, ?_, initial.current, initial.pid, rfl⟩,
      initial.control, by simp⟩, ⟨⟨by simp, by simp, by simp, by simp, ?_, by simp⟩,
      ⟨by simp, ?_, by simp [Control.born, Control.reaped]⟩, by simp, by simp⟩⟩
  · rw [initial.queue]
    rfl
  · rw [initial.queue]
    rfl
  · exact initial.table
  · rw [initial.pcb]
    exact fun _ => rfl
  · intro p blocks
    cases blocks
  · intro p blocks
    cases blocks

theorem machineInvariant_step (alloc : IsolatingAllocator A) {machine next : Machine A}
    {action : Action} (invariant : MachineInvariant alloc machine)
    (taken : machine.step alloc.toAllocator action = some next) :
    MachineInvariant alloc next := by
  obtain ⟨spec, shows, orderly⟩ := invariant
  obtain ⟨next', spec', simulated⟩ := shows.simulate orderly (enabled_of_step taken)
  have same : next = next' := Option.some.inj (taken.symm.trans simulated.taken)
  rw [same]
  exact ⟨spec', simulated.shows, orderly.step simulated.step⟩

theorem reachable_machineInvariant (alloc : IsolatingAllocator A) {machine : Machine A}
    (reachable : (processSystem alloc.toAllocator).Reachable machine) :
    MachineInvariant alloc machine := by
  have base : ∀ first, (processSystem alloc.toAllocator).initial first →
      MachineInvariant alloc first := fun _ initial => machineInvariant_initial alloc initial
  refine System.Reachable.invariant base ?_ reachable
  intro before action after invariant taken
  exact machineInvariant_step alloc invariant taken

/-- The ready queue and the process table as lists.  Whoever runs is the current
process, so at most one does. -/
structure SchedulerState (machine : Machine A) (ready table : List Addr) : Prop where
  next : Chain machine.kernel.pcb.next machine.kernel.readyQueue.front ready none
  rear : machine.kernel.readyQueue.rear = ready.getLast?
  ready_nodup : ready.Nodup
  nextInTable : Chain machine.kernel.pcb.nextInTable machine.kernel.processTableHead table none
  table_nodup : table.Nodup
  ready_iff : ∀ p, p ∈ ready ↔ p ∈ table ∧ (machine.kernel.pcb p).state = .ready
  running : ∀ p ∈ table, (machine.kernel.pcb p).state = .running →
    machine.kernel.currentProcess = some p ∧ p ∉ ready
  history : machine.control.born.Perm (machine.control.reaped ++ table)

theorem scheduler_state (alloc : IsolatingAllocator A) (machine : Machine A)
    (reachable : (processSystem alloc.toAllocator).Reachable machine) :
    (∃ ready table, SchedulerState machine ready table) ∧
      ∀ action, machine.Enabled action →
        ∃ next, machine.step alloc.toAllocator action = some next := by
  obtain ⟨spec, shows, orderly⟩ := reachable_machineInvariant alloc reachable
  refine ⟨⟨spec.processes.ready, spec.processes.table, ?_⟩, ?_⟩
  · have refines := shows.refines
    have sound := orderly.sound
    refine ⟨refines.queue.chain, refines.queue.rear, sound.ready_nodup, refines.table,
      sound.table_nodup, ?_, ?_, ?_⟩
    · intro p
      rw [refines.state_eq]
      exact sound.ready_iff p
    · intro p present runs
      rw [refines.state_eq] at runs
      exact ⟨refines.current.trans (sound.running p present runs), sound.not_ready (by simp [runs])⟩
    · rw [shows.control]
      exact orderly.accounted.history
  · intro action enabled
    obtain ⟨next, _, simulated⟩ := shows.simulate orderly enabled
    exact ⟨next, simulated.taken⟩

/-- The machine when the CLI starts, on the heap of `memory.c`. -/
def bootMachine : Machine Memory.Heap where
  kernel :=
    { allocator := Memory.memoryInit, pcb := fun _ => Pcb.zero, memory := fun _ => 0,
      currentProcess := none, readyQueue := initializeQueue, processTableHead := none,
      nextPid := 1, pidAtNull := 0 }
  control := ⟨true, fun _ => false, []⟩

/-- A process forks, waits, is woken by the exit of its child and collects it. -/
def forkExitWait : List Action :=
  [.createProcess 0 1 1 2, .start 0, .fork 0, .wait 0 0, .exit 7 0, .resume]

theorem bootMachine_initial : bootMachine.Initial := ⟨rfl, rfl, rfl, rfl, rfl, rfl⟩

theorem forkExitWait_recorded : ∃ trace last,
    (processSystem heapAllocator.toAllocator).record bootMachine forkExitWait =
      some (trace, last) := by
  have runs : ((processSystem heapAllocator.toAllocator).record bootMachine
      forkExitWait).isSome := by
    decide +kernel
  obtain ⟨⟨trace, last⟩, recorded⟩ := Option.isSome_iff_exists.mp runs
  exact ⟨trace, last, recorded⟩

theorem scheduler_state_after_forkExitWait : ∃ trace last,
    (processSystem heapAllocator.toAllocator).record bootMachine forkExitWait =
        some (trace, last) ∧
      (∃ ready table, SchedulerState last ready table) ∧
      ∀ action, last.Enabled action →
        ∃ next, last.step heapAllocator.toAllocator action = some next := by
  obtain ⟨trace, last, recorded⟩ := forkExitWait_recorded
  exact ⟨trace, last, recorded, scheduler_state heapAllocator last
    ⟨bootMachine, trace, bootMachine_initial, System.trace_of_record recorded⟩⟩

end ApnaOS.Process
