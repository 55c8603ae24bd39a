import Mathlib.Data.Finset.Card
import Mathlib.Data.Finset.Range
import ApnaOS.Process.Creation
import ApnaOS.Process.Switching

/-!
# What a fork leaves behind

`fork_syscall` allocates a PCB, a user stack, a kernel stack and a page table for the
child.  `wait_syscall` frees the PCB, and nothing frees the others.
-/

set_option autoImplicit false

namespace ApnaOS.Process

open ApnaOS.Lib
open ApnaOS.Memory (Heap numPages)

variable {A : Type}

/-! ## What a step frees -/

section Step

variable {alloc : IsolatingAllocator A} {machine next : Machine A} {action : Action} {spec : Spec}

theorem Shows.allocator_step (shows : Shows alloc machine spec) (orderly : spec.Orderly)
    (taken : machine.step alloc.toAllocator action = some next) :
    Grows alloc machine.kernel.allocator next.kernel.allocator ∨
      ∃ child ∈ spec.processes.table,
        next.kernel.allocator = alloc.kfree machine.kernel.allocator (some child) := by
  have enough := shows.enough orderly
  have enough' := Nat.le_of_lt enough
  have refines := shows.refines
  have sound := orderly.sound
  have unchanged : next.kernel.allocator = machine.kernel.allocator →
      Grows alloc machine.kernel.allocator next.kernel.allocator := by
    intro same q used
    rw [same]
    exact used
  have enabled := enabled_of_step taken
  cases action with
  | createProcess e priority d t =>
      obtain ⟨process, kernel, ran, grows, _⟩ :=
        refines.countPid.createProcess sound.countPid alloc shows.live
          (machine.kernel.nextPid % wordRange) e priority d t enough'
      rw [Machine.Enabled] at enabled
      simp only [Machine.step, enabled, if_true, Kernel.getNewPid] at ran taken
      simp only [ran, Option.bind_eq_bind, Option.bind_some] at taken
      left
      cases process with
      | none | some p =>
          rw [← Option.some.inj taken]
          exact grows
  | start esp =>
      obtain ⟨kernel, ran, _, allocator⟩ := refines.schedule sound esp enough'
      have inCli : machine.control.inCli = true := enabled
      simp only [Machine.step, inCli, if_true, ran, Option.bind_eq_bind, Option.bind_some] at taken
      rw [← Option.some.inj taken] at unchanged ⊢
      exact Or.inl (unchanged allocator)
  | fork ebp =>
      obtain ⟨p, caller⟩ := Option.isSome_iff_exists.mp enabled
      obtain ⟨child, kernel, ran, grows, _⟩ :=
        refines.forkSyscall sound alloc shows.live ebp p enough'
      simp only [Machine.step, caller, ran, Option.bind_eq_bind, Option.bind_some] at taken
      left
      cases child with
      | none | some c =>
          rw [← Option.some.inj taken]
          exact grows
  | yield ebp esp =>
      obtain ⟨p, caller⟩ := Option.isSome_iff_exists.mp enabled
      obtain ⟨kernel, ran, _, allocator⟩ := refines.yieldSyscall sound p ebp esp enough'
      simp only [Machine.step, caller, ran, Option.bind_eq_bind, Option.bind_some] at taken
      rw [← Option.some.inj taken] at unchanged ⊢
      exact Or.inl (unchanged allocator)
  | wait ebp esp =>
      obtain ⟨p, caller⟩ := Option.isSome_iff_exists.mp enabled
      obtain ⟨present, runs⟩ := orderly.caller_runs (shows.caller_eq ▸ caller)
      cases found : spec.processes.zombieChild p with
      | some child =>
          obtain ⟨kernel, ran, _, allocator⟩ := refines.waitSyscall_returns
            sound.table_nodup alloc.toAllocator ebp esp enough found
          simp only [Machine.step, caller, ran, Option.bind_eq_bind, Option.bind_some] at taken
          rw [← Option.some.inj taken]
          exact Or.inr ⟨child, (Spec.zombieChild_spec found).1, allocator⟩
      | none =>
          obtain ⟨kernel, ran, _, allocator⟩ := refines.waitSyscall_suspends sound
            alloc.toAllocator ebp esp present runs enough found
          simp only [Machine.step, caller, ran, Option.bind_eq_bind, Option.bind_some] at taken
          rw [← Option.some.inj taken] at unchanged ⊢
          exact Or.inl (unchanged allocator)
  | resume =>
      obtain ⟨p, resumer⟩ := Option.isSome_iff_exists.mp enabled
      rcases refines.waitResumed sound.table_nodup alloc.toAllocator p enough with
        ⟨child, kernel, found, ran, _, allocator⟩ | ⟨kernel, _, ran, _, allocator⟩
      · simp only [Machine.step, resumer, ran, Option.bind_eq_bind, Option.bind_some] at taken
        rw [← Option.some.inj taken]
        exact Or.inr ⟨child, (Spec.zombieChild_spec found).1, allocator⟩
      · simp only [Machine.step, resumer, ran, Option.bind_eq_bind, Option.bind_some] at taken
        rw [← Option.some.inj taken] at unchanged ⊢
        exact Or.inl (unchanged allocator)
  | exit status esp =>
      obtain ⟨p, caller⟩ := Option.isSome_iff_exists.mp enabled
      obtain ⟨present, runs⟩ := orderly.caller_runs (shows.caller_eq ▸ caller)
      obtain ⟨kernel, ran, _, allocator⟩ :=
        refines.exitSyscall sound present runs esp status enough'
      simp only [Machine.step, caller, ran, Option.bind_eq_bind, Option.bind_some] at taken
      rw [← Option.some.inj taken] at unchanged ⊢
      exact Or.inl (unchanged allocator)
  | stateExit ebp esp =>
      obtain ⟨p, caller⟩ := Option.isSome_iff_exists.mp enabled
      obtain ⟨present, runs⟩ := orderly.caller_runs (shows.caller_eq ▸ caller)
      obtain ⟨kernel, ran, _, allocator⟩ := (refines.setState p .exit).yieldSyscall
        (sound.stop present runs) p ebp esp enough'
      simp only [Machine.step, caller, stateExit, ran, Option.bind_eq_bind, Option.bind_some]
        at taken
      rw [← Option.some.inj taken] at unchanged ⊢
      exact Or.inl (unchanged allocator)

structure Leaked (alloc : IsolatingAllocator A) (machine : Machine A) (q : Addr) : Prop where
  live : alloc.live machine.kernel.allocator q
  foreign : ¬ machine.kernel.InTable q

theorem Leaked.step {q : Addr} (leaked : Leaked alloc machine q)
    (invariant : MachineInvariant alloc machine)
    (taken : machine.step alloc.toAllocator action = some next) : Leaked alloc next q := by
  obtain ⟨spec, shows, orderly⟩ := invariant
  have inTable := shows.refines.inTable_iff
  constructor
  · rcases shows.allocator_step orderly taken with grows | ⟨child, present, freed⟩
    · exact grows q leaked.live
    · have different : q ≠ child :=
        fun same => leaked.foreign ((inTable q).mpr (same ▸ present))
      rw [freed]
      exact alloc.frees (shows.live child present) different leaked.live
  · intro present
    rcases shows.switch_or_calm orderly taken with ⟨kernel, _, switch⟩ | ⟨_, calm⟩
    · exact leaked.foreign ((switch.wasInTable q).mp ((switch.inTable q).mp present))
    · obtain ⟨next', spec', simulated⟩ := shows.simulate orderly (enabled_of_step taken)
      cases Option.some.inj (taken.symm.trans simulated.taken)
      have made := (calm.enters q present leaked.foreign).1
      rw [shows.control, simulated.shows.control] at made
      exact (simulated.born q made).1 leaked.live

theorem Leaked.run {q : Addr} {last : Machine A} {trace : List (Transition (Machine A) Action)}
    (leaked : Leaked alloc machine q) (invariant : MachineInvariant alloc machine)
    (run : (processSystem alloc.toAllocator).Trace machine trace last) : Leaked alloc last q := by
  induction run with
  | nil machine => exact leaked
  | cons taken _ ih =>
      exact ih (leaked.step invariant taken) (machineInvariant_step alloc invariant taken)

theorem not_inTable_of_new {q : Addr}
    (invariant : MachineInvariant alloc machine)
    (taken : machine.step alloc.toAllocator action = some next)
    (unused : ¬ alloc.live machine.kernel.allocator q)
    (other : next.control.born ≠ q :: machine.control.born) : ¬ next.kernel.InTable q := by
  obtain ⟨spec, shows, orderly⟩ := invariant
  have before : ¬ machine.kernel.InTable q :=
    fun present => unused (shows.live q ((shows.refines.inTable_iff q).mp present))
  intro present
  rcases shows.switch_or_calm orderly taken with ⟨kernel, _, switch⟩ | ⟨_, calm⟩
  · exact before ((switch.wasInTable q).mp ((switch.inTable q).mp present))
  · exact other (calm.enters q present before).1

end Step

/-! ## The heap -/

def markedPages (heap : Heap) : Set Nat := fun page => page < numPages ∧ heap.pageTable page ≠ 0

/-- A page that was free before is the first one of an allocation that nobody frees. -/
structure LeaksPage (machine next : Machine Heap) (start : Nat) : Prop where
  bound : start < numPages
  wasFree : machine.kernel.allocator.pageTable start = 0
  leaked : Leaked heapAllocator next (pagePtr start)

theorem not_free_of_leaked {machine : Machine Heap} {start : Nat}
    (leaked : Leaked heapAllocator machine (pagePtr start)) :
    machine.kernel.allocator.pageTable start ≠ 0 := by
  obtain ⟨page, same, head⟩ := leaked.live
  rw [pagePtr_injective same, head]
  decide

section Cycle

variable {machine forked last : Machine Heap} {ebp : Nat} {p c : Addr} {pid : Int}

/-- The child's user stack is one. -/
theorem fork_leaks (invariant : MachineInvariant heapAllocator machine)
    (forks : machine.step heapAllocator.toAllocator (.fork ebp) = some forked)
    (child : forked.control.history = .forked p c pid :: machine.control.history) :
    ∃ start, LeaksPage machine forked start := by
  obtain ⟨q, caller, taken⟩ := Option.bind_eq_some_iff.mp forks
  obtain ⟨⟨given, kernel⟩, ran, same⟩ := Option.bind_eq_some_iff.mp taken
  cases given with
  | none =>
      rw [← Option.some.inj same] at child
      have lengths := congrArg List.length child
      simp at lengths
  | some c' =>
      obtain ⟨spec, shows, orderly⟩ := id invariant
      have present := (orderly.caller_runs (shows.caller_eq ▸ caller)).1
      have other : (Memory.kmalloc machine.kernel.allocator pcbSize).1 ≠ some q :=
        fun given => heapAllocator.fresh (Prod.ext given rfl) (shows.live q present)
      rcases forkSyscall_cases ran other with ⟨clash, _⟩ | ⟨_, stack, table, kernelStack, made, taken⟩
      · cases clash
      cases made
      let requests := forkRequests machine.kernel q
      have new := grants_new heapAllocator requests machine.kernel.allocator stack
      have different := grants_nodup heapAllocator requests machine.kernel.allocator
      rw [taken.granted] at new different
      obtain ⟨pcb, block, others, _, rfl, _, _, takes⟩ := taken.blocks
      have marked := takes.marked block (List.mem_cons_of_mem pcb List.mem_cons_self)
      have wasFree := takes.wasFree block (List.mem_cons_of_mem pcb List.mem_cons_self)
      have allocator : forked.kernel.allocator = kernel.allocator := by
        rw [← Option.some.inj same]
      obtain ⟨unused, used⟩ := new (List.mem_cons_of_mem _ List.mem_cons_self)
      refine ⟨block.start, marked.start_lt, wasFree _ marked.owns_start, ?_, ?_⟩
      · rw [allocator]
        exact used
      · apply not_inTable_of_new invariant forks unused
        rw [← Option.some.inj same]
        intro born
        have named : c' = block.ptr := (List.cons.inj born).1
        exact (List.nodup_cons.mp different).1 (named ▸ List.mem_cons_self)

end Cycle

/-- The event of a `wait_syscall` of `p` that has freed `c`. -/
def Event.isReaping (p c : Addr) : Event → Bool
  | .waitReturned q _ result => decide (q = p ∧ result.reaped = some c)
  | _ => false

def Reaps (machine : Machine A) (p c : Addr) : Prop :=
  machine.control.history.head?.any (Event.isReaping p c) = true

instance (machine : Machine A) (p c : Addr) : Decidable (Reaps machine p c) :=
  inferInstanceAs (Decidable (_ = true))

def Action.allocates : Action → Bool
  | .createProcess .. | .fork _ => true
  | _ => false

def Action.isExit : Action → Bool
  | .exit .. => true
  | _ => false

/-- `p` forks `c`, then the processes run in any order and allocate and free nothing, `c`
calls `exit_syscall`, and in the end `p` reaps `c`. -/
structure ForkExitWait (machine forked last : Machine Heap) (p c : Addr)
    (trace : List (Transition (Machine Heap) Action)) : Prop where
  reachable : (processSystem heapAllocator.toAllocator).Reachable machine
  forks : ∃ ebp, machine.step heapAllocator.toAllocator (.fork ebp) = some forked
  child : ∃ pid, 0 < pid ∧ forked.control.history = .forked p c pid :: machine.control.history
  run : (processSystem heapAllocator.toAllocator).Trace forked trace last
  quiet : ∀ transition ∈ trace, transition.action.allocates = false ∧
    (transition.after.control.reaped = transition.before.control.reaped ∨
      Reaps transition.after p c)
  exits : ∃ transition ∈ trace, transition.before.caller = some c ∧
    transition.action.isExit = true
  reaps : Reaps last p c

theorem fork_cases {alloc : Allocator A} {machine forked : Machine A} {ebp : Nat}
    (forks : machine.step alloc (.fork ebp) = some forked) :
    forked.control = machine.control ∨ ∃ p c, machine.caller = some p ∧ forked.control.history =
      .forked p c (asInt (forked.kernel.pcb c).pid) :: machine.control.history := by
  obtain ⟨p, caller, taken⟩ := Option.bind_eq_some_iff.mp forks
  obtain ⟨⟨given, kernel⟩, _, same⟩ := Option.bind_eq_some_iff.mp taken
  cases given with
  | none =>
      rw [← Option.some.inj same]
      exact Or.inl rfl
  | some c =>
      rw [← Option.some.inj same]
      exact Or.inr ⟨p, c, caller, rfl⟩

theorem fork_logged {alloc : Allocator A} {machine forked : Machine A} {ebp : Nat} {p c : Addr}
    (forks : machine.step alloc (.fork ebp) = some forked) (caller : machine.caller = some p)
    (born : forked.control.born = c :: machine.control.born) : forked.control.history =
      .forked p c (asInt (forked.kernel.pcb c).pid) :: machine.control.history := by
  rcases fork_cases forks with same | ⟨q, d, called, logged⟩
  · rw [same] at born
    exact absurd born (List.cons_ne_self c machine.control.born).symm
  · have named : forked.control.born = d :: machine.control.born := by
      rw [Control.born, logged]
      rfl
    rw [born] at named
    have parent : q = p := Option.some.inj (called.symm.trans caller)
    have child : d = c := (List.cons.inj named).1.symm
    rw [parent, child] at logged
    exact logged

theorem exists_forkExitWait : ∃ machine forked last trace,
    ForkExitWait machine forked last 8 20488 trace ∧
      machine.kernel.allocator.pageTable 6 = 0 ∧ last.kernel.allocator.pageTable 6 ≠ 0 := by
  have runs : ((processSystem heapAllocator.toAllocator).record bootMachine
      [.createProcess 0 1 1 2, .start 0]).any fun run =>
        (run.2.step heapAllocator.toAllocator (.fork 0)).any fun forked =>
          decide (run.2.control.born = [8] ∧ forked.control.born = [20488, 8] ∧
            run.2.caller = some 8 ∧ 0 < asInt (forked.kernel.pcb 20488).pid) &&
          ((processSystem heapAllocator.toAllocator).record forked
            [.wait 0 0, .exit 7 0, .resume]).any fun later =>
              decide ((∀ t ∈ later.1, t.action.allocates = false ∧
                (t.after.control.reaped = t.before.control.reaped ∨ Reaps t.after 8 20488)) ∧
              (∃ t ∈ later.1, t.before.caller = some 20488 ∧ t.action.isExit = true) ∧
              Reaps later.2 8 20488 ∧ run.2.kernel.allocator.pageTable 6 = 0 ∧
              later.2.kernel.allocator.pageTable 6 ≠ 0) := by
    decide +kernel
  obtain ⟨⟨trace, machine⟩, recorded, checked⟩ := (Option.any_eq_true ..).mp runs
  obtain ⟨forked, forks, checked⟩ := (Option.any_eq_true ..).mp checked
  obtain ⟨child, checked⟩ := Bool.and_eq_true_iff.mp checked
  obtain ⟨⟨later, last⟩, recorded', checked⟩ := (Option.any_eq_true ..).mp checked
  obtain ⟨born, born', caller, positive⟩ := of_decide_eq_true child
  obtain ⟨quiet, exits, reaps, free, marked⟩ := of_decide_eq_true checked
  refine ⟨machine, forked, last, later, ?_, free, marked⟩
  have logged := fork_logged forks caller (born'.trans (congrArg (List.cons 20488) born).symm)
  exact ⟨⟨bootMachine, trace, bootMachine_initial, System.trace_of_record recorded⟩, ⟨0, forks⟩,
    ⟨_, positive, logged⟩, System.trace_of_record recorded', quiet, exits, reaps⟩

/-- The pages marked allocated are never the same again. -/
theorem fork_exit_wait_leaks {machine forked last : Machine Heap} {p c : Addr}
    {trace : List (Transition (Machine Heap) Action)}
    (cycle : ForkExitWait machine forked last p c trace) :
    markedPages last.kernel.allocator ≠ markedPages machine.kernel.allocator := by
  have invariant := reachable_machineInvariant heapAllocator cycle.reachable
  obtain ⟨ebp, forks⟩ := cycle.forks
  obtain ⟨pid, _, child⟩ := cycle.child
  obtain ⟨start, bound, wasFree, leaked⟩ := fork_leaks invariant forks child
  have leaked' := leaked.run (machineInvariant_step heapAllocator invariant forks) cycle.run
  have marked : start ∈ markedPages last.kernel.allocator := ⟨bound, not_free_of_leaked leaked'⟩
  intro same
  rw [same] at marked
  exact marked.2 wasFree

theorem fork_exit_wait_leaks_once : ∃ machine forked last trace,
    ForkExitWait machine forked last 8 20488 trace ∧
      markedPages last.kernel.allocator ≠ markedPages machine.kernel.allocator := by
  obtain ⟨machine, forked, last, trace, cycle, _⟩ := exists_forkExitWait
  exact ⟨machine, forked, last, trace, cycle, fork_exit_wait_leaks cycle⟩

/-- The child's user stack is still there. -/
theorem cycle_keeps_the_stack : ¬ ∀ machine forked last p c trace,
    ForkExitWait machine forked last p c trace →
      markedPages last.kernel.allocator = markedPages machine.kernel.allocator := by
  intro always
  obtain ⟨machine, forked, last, trace, cycle, free, marked⟩ := exists_forkExitWait
  have kept : 6 ∈ markedPages last.kernel.allocator := ⟨by decide, marked⟩
  rw [always machine forked last 8 20488 trace cycle] at kept
  exact kept.2 free

/-! ## How many forks a heap bears -/

def Event.isFork : Event → Bool
  | .forked .. => true
  | _ => false

/-- How often `fork_syscall` has returned a child. -/
def Control.forkCount (control : Control) : Nat := control.history.countP Event.isFork

theorem Spec.Step.forkCount_cases {spec next : Spec} {action : Action}
    (taken : spec.Step action next) : next.control.forkCount = spec.control.forkCount ∨
      ∃ ebp p c pid, action = .fork ebp ∧
        next.control.history = .forked p c pid :: spec.control.history := by
  cases taken with
  | @forked ebp p child caller fresh => exact Or.inr ⟨ebp, p, child, _, rfl, rfl⟩
  | _ => exact Or.inl rfl

structure LeakedPages (machine : Machine Heap) (starts : List Nat) : Prop where
  nodup : starts.Nodup
  bound : ∀ start ∈ starts, start < numPages
  leaked : ∀ start ∈ starts, Leaked heapAllocator machine (pagePtr start)

section Count

variable {machine next last : Machine Heap} {action : Action} {starts : List Nat}

theorem LeakedPages.step (pages : LeakedPages machine starts)
    (invariant : MachineInvariant heapAllocator machine)
    (taken : machine.step heapAllocator.toAllocator action = some next) : ∃ starts',
      LeakedPages next starts' ∧
        starts'.length + machine.control.forkCount = next.control.forkCount + starts.length := by
  obtain ⟨spec, shows, orderly⟩ := id invariant
  obtain ⟨next', spec', simulated⟩ := shows.simulate orderly (enabled_of_step taken)
  cases Option.some.inj (taken.symm.trans simulated.taken)
  have kept : ∀ start ∈ starts, Leaked heapAllocator next (pagePtr start) :=
    fun start member => (pages.leaked start member).step invariant taken
  rcases simulated.step.forkCount_cases with same | ⟨ebp, p, c, pid, isFork, logged⟩
  · rw [← shows.control, ← simulated.shows.control] at same
    refine ⟨starts, ⟨pages.nodup, pages.bound, kept⟩, ?_⟩
    rw [same]
    exact Nat.add_comm _ _
  · rw [← shows.control, ← simulated.shows.control] at logged
    rw [isFork] at taken
    obtain ⟨start, bound, wasFree, leaked⟩ := fork_leaks invariant taken logged
    have new : start ∉ starts :=
      fun member => not_free_of_leaked (pages.leaked start member) wasFree
    refine ⟨start :: starts, ⟨List.nodup_cons.mpr ⟨new, pages.nodup⟩, ?_, ?_⟩, ?_⟩
    · exact List.forall_mem_cons.mpr ⟨bound, pages.bound⟩
    · exact List.forall_mem_cons.mpr ⟨leaked, kept⟩
    · simp only [Control.forkCount, logged, List.countP_cons, Event.isFork, List.length_cons]
      simp only [if_true]
      omega

theorem LeakedPages.run {trace : List (Transition (Machine Heap) Action)}
    (run : (processSystem heapAllocator.toAllocator).Trace machine trace last)
    (pages : LeakedPages machine starts) (invariant : MachineInvariant heapAllocator machine) :
    ∃ starts', LeakedPages last starts' ∧
      starts'.length + machine.control.forkCount = last.control.forkCount + starts.length := by
  induction run generalizing starts with
  | nil machine => exact ⟨starts, pages, Nat.add_comm _ _⟩
  | cons taken _ ih =>
      obtain ⟨middle, pages', counted⟩ := pages.step invariant taken
      obtain ⟨starts', pages'', counted'⟩ :=
        ih pages' (machineInvariant_step heapAllocator invariant taken)
      exact ⟨starts', pages'', by omega⟩

/-- In no run can more forks succeed than the heap has pages, however many children are
reaped. -/
theorem forkCount_le
    (reachable : (processSystem heapAllocator.toAllocator).Reachable machine) :
    machine.control.forkCount ≤ numPages := by
  obtain ⟨first, trace, initial, run⟩ := reachable
  have none_leaked : LeakedPages first [] := ⟨List.nodup_nil, by simp, by simp⟩
  obtain ⟨starts, pages, counted⟩ :=
    none_leaked.run run (machineInvariant_initial heapAllocator initial)
  have unforked : first.control.forkCount = 0 := by
    rw [initial.control]
    rfl
  have within : starts.toFinset ⊆ Finset.range numPages := by
    intro start member
    exact Finset.mem_range.mpr (pages.bound start (List.mem_toFinset.mp member))
  have few := Finset.card_le_card within
  rw [List.toFinset_card_of_nodup pages.nodup, Finset.card_range] at few
  rw [unforked, List.length_nil] at counted
  omega

end Count

end ApnaOS.Process
