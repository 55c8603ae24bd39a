import ApnaOS.Process.Parents
import ApnaOS.Process.Twins

/-!
# Stale memory

Two kernels that differ in what free memory holds, and what they read of it.
-/

set_option autoImplicit false

namespace ApnaOS.Process

open ApnaOS.Lib

variable {A : Type}

/-- The states agree on everything but the contents of memory that is not in use. -/
structure AgreeOnLive (alloc : IsolatingAllocator A) (machine machine' : Machine A) : Prop where
  control : machine'.control = machine.control
  allocator : machine'.kernel.allocator = machine.kernel.allocator
  current : machine'.kernel.currentProcess = machine.kernel.currentProcess
  queue : machine'.kernel.readyQueue = machine.kernel.readyQueue
  head : machine'.kernel.processTableHead = machine.kernel.processTableHead
  nextPid : machine'.kernel.nextPid = machine.kernel.nextPid
  pidAtNull : machine'.kernel.pidAtNull = machine.kernel.pidAtNull
  pcb : ∀ a, alloc.live machine.kernel.allocator a →
    machine'.kernel.pcb a = machine.kernel.pcb a

/-- The same process table, the same process running, the same results, and the same
fields of the processes that later steps read. -/
structure SameOutputs (machine machine' : Machine A) : Prop where
  control : machine'.control = machine.control
  current : machine'.kernel.currentProcess = machine.kernel.currentProcess
  processes : ∃ table,
    Chain machine.kernel.pcb.nextInTable machine.kernel.processTableHead table none ∧
    Chain machine'.kernel.pcb.nextInTable machine'.kernel.processTableHead table none ∧
    ∀ p ∈ table, (machine'.kernel.pcb p).parent = (machine.kernel.pcb p).parent ∧
      (machine'.kernel.pcb p).isNewChild = (machine.kernel.pcb p).isNewChild ∧
      (machine'.kernel.pcb p).userStackBase = (machine.kernel.pcb p).userStackBase ∧
      (machine'.kernel.pcb p).cr3 = (machine.kernel.pcb p).cr3 ∧
      (machine'.kernel.pcb p).state = (machine.kernel.pcb p).state

def SameRuns (alloc : Allocator A) : List Action → Machine A → Machine A → Prop
  | [], machine, machine' => SameOutputs machine machine'
  | action :: rest, machine, machine' => SameOutputs machine machine' ∧
      match machine.step alloc action, machine'.step alloc action with
      | some next, some next' => SameRuns alloc rest next next'
      | none, none => True
      | _, _ => False

/-- `fork_syscall` of `p` gets all the memory it asks for, and the PCB is at `child`. -/
def Machine.ForksAt (alloc : Allocator A) (machine : Machine A) (p child : Addr) : Prop :=
  ∃ a stack a', alloc.kmalloc machine.kernel.allocator pcbSize = (some child, a) ∧
    alloc.kmalloc a 4096 = (some stack, a') ∧
    ((machine.kernel.pcb p).cr3 ≠ 0 → (alloc.kmalloc a' 4096).1 ≠ none)

/-- The search of `find_zombie_child` for children of `p` reaches the zombie `child`. -/
def Kernel.Reaches (kernel : Kernel A) (p child : Addr) : Prop :=
  ∃ front back,
    Chain kernel.pcb.nextInTable kernel.processTableHead (front ++ child :: back) none ∧
      (∀ c ∈ front, ¬ kernel.IsZombieChild p c) ∧ (kernel.pcb child).state = .zombie

/-- What the step reads of memory that was not in use, or is not any more, has the same
effect in both: the fields that `create_process` and `fork_syscall` leave as they find
them, the pid of the parent of a zombie and the state of the parent that is to be woken. -/
def SameStale (alloc : Allocator A) (machine machine' : Machine A) : Action → Prop
  | .createProcess .. => ∀ p, machine.CreatesAt alloc p →
      (machine'.kernel.pcb p).parent = (machine.kernel.pcb p).parent ∧
        (machine'.kernel.pcb p).isNewChild = (machine.kernel.pcb p).isNewChild
  | .fork _ => ∀ p, machine.caller = some p → ∀ child, machine.ForksAt alloc p child →
      (machine'.kernel.pcb child).userStackBase = (machine.kernel.pcb child).userStackBase ∧
        ((machine.kernel.pcb p).cr3 = 0 →
          (machine'.kernel.pcb child).cr3 = (machine.kernel.pcb child).cr3)
  | .wait _ _ => ∀ p, machine.caller = some p → ∀ child, machine.kernel.Reaches p child →
      (machine.kernel.pidOf (machine.kernel.pcb child).parent = (machine.kernel.pcb p).pid ↔
        machine'.kernel.pidOf (machine.kernel.pcb child).parent = (machine.kernel.pcb p).pid)
  | .resume => ∀ p, machine.resumer = some p → ∀ child, machine.kernel.Reaches p child →
      (machine.kernel.pidOf (machine.kernel.pcb child).parent = (machine.kernel.pcb p).pid ↔
        machine'.kernel.pidOf (machine.kernel.pcb child).parent = (machine.kernel.pcb p).pid)
  | .exit _ _ => ∀ p, machine.caller = some p → ∀ q, (machine.kernel.pcb p).parent = some q →
      ((machine.kernel.pcb q).state = .blocked ↔ (machine'.kernel.pcb q).state = .blocked)
  | _ => True

def StaleAgrees (alloc : Allocator A) : List Action → Machine A → Machine A → Prop
  | [], _, _ => True
  | action :: rest, machine, machine' => SameStale alloc machine machine' action ∧
      ∀ next next', machine.step alloc action = some next →
        machine'.step alloc action = some next' → StaleAgrees alloc rest next next'

/-! ## One step -/

/-- The first state is as in a run, and the second one shows the same processes. -/
structure Alike (alloc : IsolatingAllocator A) (machine machine' : Machine A)
    (spec : Spec) : Prop where
  shows : Shows alloc machine spec
  orderly : spec.Orderly
  pair : Pair spec.processes machine.kernel machine'.kernel
  control : machine'.control = machine.control

theorem Refines.unique {kernel : Kernel A} {processes processes' : Processes}
    (refines : Refines kernel processes) (refines' : Refines kernel processes') :
    processes = processes' := by
  obtain ⟨ready, table, proc, current, nextPid, pidAtNull⟩ := processes
  obtain ⟨ready', table', proc', current', nextPid', pidAtNull'⟩ := processes'
  have same : proc = proc' := funext fun a => (refines.proc a).symm.trans (refines'.proc a)
  have queue := refines.queue.chain.unique refines'.queue.chain
  have listed := refines.table.unique refines'.table
  have runs := refines.current.symm.trans refines'.current
  have counted := refines.nextPid.symm.trans refines'.nextPid
  have null := refines.pidAtNull.symm.trans refines'.pidAtNull
  simp only at queue listed runs counted null
  rw [queue, listed, same, runs, counted, null]

namespace Alike

variable {alloc : IsolatingAllocator A} {machine machine' : Machine A} {spec : Spec}

theorem outputs (alike : Alike alloc machine machine' spec) : SameOutputs machine machine' := by
  refine ⟨alike.control, alike.pair.current, spec.processes.table, alike.shows.refines.table,
    alike.pair.table, ?_⟩
  intro p present
  have same := alike.pair.similar p present
  exact ⟨same.parent, same.isNewChild, same.userStackBase, same.cr3, same.state⟩

theorem caller_eq (alike : Alike alloc machine machine' spec) :
    machine'.caller = machine.caller := by
  rw [Machine.caller, Machine.caller, alike.control, alike.pair.current]

theorem caller_runs (alike : Alike alloc machine machine' spec) {p : Addr}
    (caller : machine.caller = some p) : p ∈ spec.processes.table ∧
      spec.processes.state p = .running ∧ machine'.caller = some p := by
  obtain ⟨present, runs⟩ := alike.orderly.caller_runs (alike.shows.caller_eq ▸ caller)
  exact ⟨present, runs, alike.caller_eq.trans caller⟩

theorem resumer_eq (alike : Alike alloc machine machine' spec) :
    machine'.resumer = machine.resumer := by
  rw [Machine.resumer, Machine.resumer, alike.control, alike.pair.current]

theorem fuel_eq (alike : Alike alloc machine machine' spec) : machine'.fuel = machine.fuel := by
  rw [Machine.fuel, Machine.fuel, alike.control]

theorem enabled_iff (alike : Alike alloc machine machine' spec) (action : Action) :
    machine'.Enabled action ↔ machine.Enabled action := by
  cases action with
  | createProcess e priority d t => simp only [Machine.Enabled, alike.control, alike.caller_eq]
  | start esp => simp only [Machine.Enabled, alike.control]
  | resume => simp only [Machine.Enabled, alike.resumer_eq]
  | _ => simp only [Machine.Enabled, alike.caller_eq]

def StepsAlike (alloc : IsolatingAllocator A) (machine machine' : Machine A) (action : Action) :
    Prop :=
  ∃ next next' spec', machine.step alloc.toAllocator action = some next ∧
    machine'.step alloc.toAllocator action = some next' ∧ Alike alloc next next' spec'

theorem next (alike : Alike alloc machine machine' spec) {kernel kernel' : Kernel A}
    {action : Action} {processes : Processes} (change : Control → Control)
    (taken : machine.step alloc.toAllocator action = some ⟨kernel, change machine.control⟩)
    (taken' : machine'.step alloc.toAllocator action = some ⟨kernel', change machine'.control⟩)
    (pair : Pair processes kernel kernel') :
    StepsAlike alloc machine machine' action := by
  obtain ⟨next, spec', simulated⟩ := alike.shows.simulate alike.orderly (enabled_of_step taken)
  have same := Option.some.inj (taken.symm.trans simulated.taken)
  rw [← same] at simulated
  refine ⟨_, _, spec', taken, taken', simulated.shows, alike.orderly.step simulated.step, ?_,
    congrArg change alike.control⟩
  rw [← pair.refines.unique simulated.shows.refines]
  exact pair

theorem sameTests (alike : Alike alloc machine machine' spec) {p : Addr}
    (stale : ∀ child, machine.kernel.Reaches p child →
      (machine.kernel.pidOf (machine.kernel.pcb child).parent = (machine.kernel.pcb p).pid ↔
        machine'.kernel.pidOf (machine.kernel.pcb child).parent = (machine.kernel.pcb p).pid)) :
    Pair.SameTests spec.processes machine'.kernel p := by
  have refines := alike.shows.refines
  intro front child back split others zombie
  have reached : machine.kernel.Reaches p child := by
    refine ⟨front, back, split ▸ refines.table, ?_, (refines.state_eq child).trans zombie⟩
    intro c member found
    have passed := (refines.test_iff p c).mp found
    rw [others c member] at passed
    cases passed
  have same := stale child reached
  have pid : (machine.kernel.pcb p).pid = (spec.processes.proc p).pid :=
    congrArg Proc.pid (refines.proc p)
  rwa [refines.pidOf_eq, refines.parent_eq, pid] at same

theorem step_create (alike : Alike alloc machine machine' spec) {e : Nat} {priority d t : Int}
    (stale : SameStale alloc.toAllocator machine machine' (.createProcess e priority d t))
    (enabled : machine.Enabled (.createProcess e priority d t)) :
    StepsAlike alloc machine machine' (.createProcess e priority d t) := by
  have sound := alike.orderly.sound
  have shows := alike.shows
  have pair := alike.pair
  have enough := alike.shows.enough alike.orderly
  have counted := pair.countPid
  have pid : machine'.kernel.getNewPid.1 = machine.kernel.getNewPid.1 :=
    congrArg (· % wordRange) pair.nextPid
  obtain ⟨process, after, after', ran, ran', result⟩ :=
    counted.createProcess sound.countPid alloc shows.live machine.kernel.getNewPid.1 e priority
      d t (Nat.le_of_lt enough) stale
  have enabled' := (alike.enabled_iff _).mpr enabled
  rw [Machine.Enabled] at enabled enabled'
  cases process with
  | none =>
      refine alike.next (fun control => control) ?_ ?_ result
      · simp only [Machine.step, enabled, if_true, ran, Option.bind_eq_bind, Option.bind_some]
      · simp only [Machine.step, enabled', if_true, pid, alike.fuel_eq, ran',
          Option.bind_eq_bind, Option.bind_some]
  | some p =>
      refine alike.next (fun control => control.log (.created p)) ?_ ?_ result
      · simp only [Machine.step, enabled, if_true, ran, Option.bind_eq_bind, Option.bind_some]
      · simp only [Machine.step, enabled', if_true, pid, alike.fuel_eq, ran',
          Option.bind_eq_bind, Option.bind_some]

theorem step_fork (alike : Alike alloc machine machine' spec) {ebp : Nat} {p : Addr}
    (stale : SameStale alloc.toAllocator machine machine' (.fork ebp))
    (caller : machine.caller = some p) :
    StepsAlike alloc machine machine' (.fork ebp) := by
  have sound := alike.orderly.sound
  have shows := alike.shows
  have pair := alike.pair
  have enough := alike.shows.enough alike.orderly
  obtain ⟨present, _, caller'⟩ := alike.caller_runs caller
  have unchanged : ∀ (k : Kernel A) (field : Pcb → Nat) (a : Addr),
      (∀ pcb : Pcb, field { pcb with userStackPtr := ebp } = field pcb) →
        field ((k.modify p fun pcb => { pcb with userStackPtr := ebp }).pcb a) =
          field (k.pcb a) := by
    intro k field a other
    rw [pcb_modify]
    split
    · exact other _
    · rfl
  obtain ⟨child, after, after', ran, ran', result⟩ :=
    (pair.setUserStackPtr p ebp).forkChild sound alloc shows.live present (Nat.le_of_lt enough) (by
      simp only [unchanged _ Pcb.userStackBase _ fun _ => rfl,
        unchanged _ Pcb.cr3 _ fun _ => rfl]
      exact stale p caller)
  cases child with
  | none =>
      have moves : ∀ processes, Pair processes after after' →
          StepsAlike alloc machine machine' (.fork ebp) := by
        intro processes result
        refine alike.next (fun control => control) ?_ ?_ result
        · simp only [Machine.step, caller, forkSyscall, ran, Option.bind_eq_bind,
            Option.bind_some]
        · simp only [Machine.step, caller', forkSyscall, alike.fuel_eq, ran',
            Option.bind_eq_bind, Option.bind_some]
      rcases result with kept | ⟨child, _, lost⟩
      · exact moves _ kept
      · exact moves _ lost
  | some child =>
      have pid : (after'.pcb child).pid = (after.pcb child).pid :=
        (result.similar child List.mem_cons_self).pid
      refine alike.next
        (fun control => control.log (.forked p child (asInt (after.pcb child).pid))) ?_ ?_ result
      · simp only [Machine.step, caller, forkSyscall, ran, Option.bind_eq_bind,
          Option.bind_some]
      · simp only [Machine.step, caller', forkSyscall, alike.fuel_eq, ran',
          Option.bind_eq_bind, Option.bind_some, pid]

theorem step_wait (alike : Alike alloc machine machine' spec) {ebp esp : Nat} {p : Addr}
    (stale : SameStale alloc.toAllocator machine machine' (.wait ebp esp))
    (caller : machine.caller = some p) :
    StepsAlike alloc machine machine' (.wait ebp esp) := by
  have sound := alike.orderly.sound
  have pair := alike.pair
  have enough := alike.shows.enough alike.orderly
  obtain ⟨present, runs, caller'⟩ := alike.caller_runs caller
  have same := alike.sameTests (stale p caller)
  cases found : spec.processes.zombieChild p with
  | some child =>
      obtain ⟨after, after', ran, ran', reaped⟩ := pair.waitSyscall_returns sound.table_nodup
        present same alloc.toAllocator ebp esp enough found
      refine alike.next
        (fun control => control.log (.waitReturned p false (spec.processes.collected child)))
        ?_ ?_ reaped
      · simp only [Machine.step, caller, ran, Option.bind_eq_bind, Option.bind_some]
      · simp only [Machine.step, caller', alike.fuel_eq, ran', Option.bind_eq_bind,
          Option.bind_some]
  | none =>
      obtain ⟨after, after', ran, ran', scheduled⟩ := pair.waitSyscall_suspends sound present
        runs same alloc.toAllocator ebp esp enough found
      refine alike.next (fun control =>
        (control.setInWait p true).switch (spec.processes.setState p .blocked).schedule.1)
        ?_ ?_ scheduled
      · simp only [Machine.step, caller, ran, Option.bind_eq_bind, Option.bind_some]
      · simp only [Machine.step, caller', alike.fuel_eq, ran', Option.bind_eq_bind,
          Option.bind_some]

theorem step_resume (alike : Alike alloc machine machine' spec) {p : Addr}
    (stale : SameStale alloc.toAllocator machine machine' .resume)
    (resumer : machine.resumer = some p) :
    StepsAlike alloc machine machine' .resume := by
  have orderly := alike.orderly
  have sound := alike.orderly.sound
  have shows := alike.shows
  have pair := alike.pair
  have enough := alike.shows.enough alike.orderly
  have resumer' : machine'.resumer = some p := alike.resumer_eq.trans resumer
  obtain ⟨inCli, current, _⟩ := Spec.resumer_eq_some.mp (shows.resumer_eq ▸ resumer)
  have present := (orderly.current_runs inCli current).1
  have same := alike.sameTests (stale p resumer)
  cases found : spec.processes.zombieChild p with
  | some child =>
      obtain ⟨after, after', ran, ran', reaped⟩ := pair.waitResumed_returns sound.table_nodup
        present same alloc.toAllocator enough found
      refine alike.next (fun control =>
        (control.setInWait p false).log (.waitReturned p true (spec.processes.collected child)))
        ?_ ?_ reaped
      · simp only [Machine.step, resumer, ran, Option.bind_eq_bind, Option.bind_some]
      · simp only [Machine.step, resumer', alike.fuel_eq, ran', Option.bind_eq_bind,
          Option.bind_some]
  | none =>
      obtain ⟨after, after', ran, ran', searched⟩ := pair.waitResumed_misses sound.table_nodup
        present same alloc.toAllocator enough found
      refine alike.next (fun control =>
        (control.setInWait p false).log (.waitReturned p true ⟨-1, none, none⟩)) ?_ ?_ searched
      · simp only [Machine.step, resumer, ran, Option.bind_eq_bind, Option.bind_some]
      · simp only [Machine.step, resumer', alike.fuel_eq, ran', Option.bind_eq_bind,
          Option.bind_some]

theorem step_exit (alike : Alike alloc machine machine' spec) {status : Int} {esp : Nat} {p : Addr}
    (stale : SameStale alloc.toAllocator machine machine' (.exit status esp))
    (caller : machine.caller = some p) :
    StepsAlike alloc machine machine' (.exit status esp) := by
  have sound := alike.orderly.sound
  have shows := alike.shows
  have pair := alike.pair
  have enough := alike.shows.enough alike.orderly
  obtain ⟨present, runs, caller'⟩ := alike.caller_runs caller
  obtain ⟨after, after', ran, ran', scheduled⟩ := pair.exitSyscall sound present runs (by
    intro q parent absent blocks
    have blocks' := (stale p caller q ((shows.refines.parent_eq p).trans parent)).mpr blocks
    rw [shows.refines.state_eq] at blocks'
    exact absent (sound.blocked q blocks')) esp status (Nat.le_of_lt enough)
  refine alike.next (fun control =>
    (control.switch (spec.processes.exit p status).schedule.1).log (.exited p status))
    ?_ ?_ scheduled
  · simp only [Machine.step, caller, ran, Option.bind_eq_bind, Option.bind_some]
  · simp only [Machine.step, caller', alike.fuel_eq, ran', Option.bind_eq_bind,
      Option.bind_some]

theorem step_stateExit (alike : Alike alloc machine machine' spec) {ebp esp : Nat} {p : Addr}
    (caller : machine.caller = some p) :
    StepsAlike alloc machine machine' (.stateExit ebp esp) := by
  have sound := alike.orderly.sound
  have pair := alike.pair
  have enough := alike.shows.enough alike.orderly
  obtain ⟨present, runs, caller'⟩ := alike.caller_runs caller
  have sound' := sound.stop present runs
  obtain ⟨after, after', ran, ran', scheduled⟩ :=
    (pair.setState p .exit (by decide)).yieldSyscall sound' p ebp esp (Nat.le_of_lt enough)
  refine alike.next
    (fun control => control.switch (spec.processes.setState p .exit).schedule.1) ?_ ?_ scheduled
  · simp only [Machine.step, caller, stateExit, ran, Option.bind_eq_bind, Option.bind_some]
  · simp only [Machine.step, caller', stateExit, alike.fuel_eq, ran', Option.bind_eq_bind,
      Option.bind_some]

theorem step (alike : Alike alloc machine machine' spec) {action : Action}
    (stale : SameStale alloc.toAllocator machine machine' action)
    (enabled : machine.Enabled action) :
    StepsAlike alloc machine machine' action := by
  have sound := alike.orderly.sound
  have pair := alike.pair
  have enough := alike.shows.enough alike.orderly
  cases action with
  | createProcess e priority d t => exact alike.step_create stale enabled
  | start esp =>
      obtain ⟨after, after', ran, ran', scheduled⟩ :=
        pair.schedule sound esp (Nat.le_of_lt enough)
      have enabled' := (alike.enabled_iff _).mpr enabled
      rw [Machine.Enabled] at enabled enabled'
      refine alike.next (fun control => control.switch spec.processes.schedule.1) ?_ ?_ scheduled
      · simp only [Machine.step, enabled, if_true, ran, Option.bind_eq_bind, Option.bind_some]
      · simp only [Machine.step, enabled', if_true, alike.fuel_eq, ran', Option.bind_eq_bind,
          Option.bind_some]
  | fork ebp =>
      obtain ⟨p, caller⟩ := Option.isSome_iff_exists.mp enabled
      exact alike.step_fork stale caller
  | yield ebp esp =>
      obtain ⟨p, caller⟩ := Option.isSome_iff_exists.mp enabled
      have caller' : machine'.caller = some p := alike.caller_eq.trans caller
      obtain ⟨after, after', ran, ran', scheduled⟩ :=
        pair.yieldSyscall sound p ebp esp (Nat.le_of_lt enough)
      refine alike.next (fun control => control.switch spec.processes.schedule.1) ?_ ?_ scheduled
      · simp only [Machine.step, caller, ran, Option.bind_eq_bind, Option.bind_some]
      · simp only [Machine.step, caller', alike.fuel_eq, ran', Option.bind_eq_bind,
          Option.bind_some]
  | wait ebp esp =>
      obtain ⟨p, caller⟩ := Option.isSome_iff_exists.mp enabled
      exact alike.step_wait stale caller
  | resume =>
      obtain ⟨p, resumer⟩ := Option.isSome_iff_exists.mp enabled
      exact alike.step_resume stale resumer
  | exit status esp =>
      obtain ⟨p, caller⟩ := Option.isSome_iff_exists.mp enabled
      exact alike.step_exit stale caller
  | stateExit ebp esp =>
      obtain ⟨p, caller⟩ := Option.isSome_iff_exists.mp enabled
      exact alike.step_stateExit caller

end Alike

/-! ## Every run -/

section Runs

variable {alloc : IsolatingAllocator A} {machine machine' : Machine A}

theorem AgreeOnLive.alike {spec : Spec} (agree : AgreeOnLive alloc machine machine')
    (shows : Shows alloc machine spec) (orderly : spec.Orderly) :
    Alike alloc machine machine' spec := by
  have refines := shows.refines
  have same : ∀ a ∈ spec.processes.table, machine'.kernel.pcb a = machine.kernel.pcb a :=
    fun a present => agree.pcb a (shows.live a present)
  refine ⟨shows, orderly, ⟨refines, ⟨?_, ?_⟩, ?_, ?_, agree.allocator, agree.current,
    agree.nextPid, agree.pidAtNull⟩, agree.control⟩
  · rw [agree.queue]
    apply refines.queue.chain.congr
    intro a queued
    rw [PcbMemory.next, same a (orderly.sound.listed queued)]
    rfl
  · rw [agree.queue]
    exact refines.queue.rear
  · rw [agree.head]
    apply refines.table.congr
    intro a present
    rw [PcbMemory.nextInTable, same a present]
    rfl
  · intro a present
    rw [same a present]
    exact Similar.refl _

theorem step_eq_none {alloc : Allocator A} {machine : Machine A} {action : Action}
    (disabled : ¬ machine.Enabled action) : machine.step alloc action = none := by
  cases taken : machine.step alloc action with
  | none => rfl
  | some next => exact absurd (enabled_of_step taken) disabled

theorem Alike.sameRuns {spec : Spec} (actions : List Action)
    (alike : Alike alloc machine machine' spec)
    (agrees : StaleAgrees alloc.toAllocator actions machine machine') :
    SameRuns alloc.toAllocator actions machine machine' := by
  induction actions generalizing machine machine' spec with
  | nil => exact alike.outputs
  | cons action rest ih =>
      obtain ⟨stale, later⟩ := agrees
      refine ⟨alike.outputs, ?_⟩
      by_cases enabled : machine.Enabled action
      · obtain ⟨next, next', spec', taken, taken', alike'⟩ := alike.step stale enabled
        simp only [taken, taken']
        exact ih alike' (later next next' taken taken')
      · have disabled : machine.step alloc.toAllocator action = none := step_eq_none enabled
        have disabled' : machine'.step alloc.toAllocator action = none :=
          step_eq_none fun enabled' => enabled ((alike.enabled_iff action).mp enabled')
        simp only [disabled, disabled']

end Runs

/-- From a reachable state and one that differs from it in free memory only, the same
actions give the same results as long as no step depends on what that memory holds. -/
theorem fresh_processes_alike (alloc : IsolatingAllocator A) (actions : List Action)
    {machine machine' : Machine A} (reachable : (processSystem alloc.toAllocator).Reachable machine)
    (agree : AgreeOnLive alloc machine machine')
    (agrees : StaleAgrees alloc.toAllocator actions machine machine') :
    SameRuns alloc.toAllocator actions machine machine' := by
  obtain ⟨spec, shows, orderly⟩ := reachable_machineInvariant alloc reachable
  exact (agree.alike shows orderly).sameRuns actions agrees

def bootOver (pcb : Pcb) : Machine Memory.Heap where
  kernel := { bootMachine.kernel with pcb := fun a => if a = 8 then pcb else Pcb.zero }
  control := bootMachine.control

theorem bootOver_agrees (pcb : Pcb) : AgreeOnLive heapAllocator bootMachine (bootOver pcb) := by
  refine ⟨rfl, rfl, rfl, rfl, rfl, rfl, rfl, ?_⟩
  intro a used
  obtain ⟨_, _, ⟨⟩⟩ := used

theorem fresh_processes_alike_over_exitStatus :
    SameRuns heapAllocator.toAllocator [.createProcess 0 1 1 2] bootMachine
      (bootOver { Pcb.zero with exitStatus := 5 }) := by
  refine fresh_processes_alike heapAllocator _ (System.reachable_initial bootMachine_initial)
    (bootOver_agrees _) ⟨?_, fun _ _ _ _ => trivial⟩
  intro p _
  have stale : (bootOver { Pcb.zero with exitStatus := 5 }).kernel.pcb p =
      if p = 8 then { Pcb.zero with exitStatus := 5 } else Pcb.zero := rfl
  rw [stale]
  split
  · exact ⟨rfl, rfl⟩
  · exact ⟨rfl, rfl⟩

/-- The first process created takes its parent from what its memory held before. -/
theorem stale_parent_survives : ¬ ∀ machine machine' : Machine Memory.Heap,
    (processSystem heapAllocator.toAllocator).Reachable machine →
      AgreeOnLive heapAllocator machine machine' →
        ∀ actions, SameRuns heapAllocator.toAllocator actions machine machine' := by
  intro always
  have run := always bootMachine (bootOver { Pcb.zero with parent := some 8 })
    (System.reachable_initial bootMachine_initial) (bootOver_agrees _) [.createProcess 0 1 1 2]
  obtain ⟨next, taken, table, parent⟩ : ∃ next,
      bootMachine.step heapAllocator.toAllocator (.createProcess 0 1 1 2) = some next ∧
        Chain next.kernel.pcb.nextInTable next.kernel.processTableHead [8] none ∧
        (next.kernel.pcb 8).parent = none := ⟨_, rfl, ⟨rfl, rfl⟩, rfl⟩
  obtain ⟨next', taken', parent'⟩ : ∃ next',
      (bootOver { Pcb.zero with parent := some 8 }).step heapAllocator.toAllocator
        (.createProcess 0 1 1 2) = some next' ∧ (next'.kernel.pcb 8).parent = some 8 :=
    ⟨_, rfl, rfl⟩
  have outputs := run.2
  simp only [taken, taken', SameRuns] at outputs
  obtain ⟨table', chain, _, fields⟩ := outputs.processes
  have same := (fields 8 (by rw [← table.unique chain]; simp)).1
  rw [parent, parent'] at same
  cases same

end ApnaOS.Process
