import ApnaOS.Process.Waiting

/-!
# What the search for a zombie reads

`find_zombie_child` reads the pid behind the parent pointer of every process it comes
to.  A process made by `create_process` has no parent, so the search must end before it.
-/

set_option autoImplicit false

namespace ApnaOS.Process

open ApnaOS.Lib

variable {A : Type}

/-! ## The loop with its reads -/

/-- `findZombie`, with the parent pointers through which it reads a pid. -/
def findZombieReads (kernel : Kernel A) (parent : Addr) :
    (fuel : Nat) → (prev current : Option Addr) →
      Option (Option Addr × Kernel A × List (Option Addr))
  | 0, _, _ => none
  | _ + 1, _, none => some (none, kernel, [])
  | fuel + 1, prev, some current =>
      let pointer := (kernel.pcb current).parent
      if kernel.pidOf pointer = (kernel.pcb parent).pid ∧ (kernel.pcb current).state = .zombie then
        some (some current, unlinkAfter kernel prev current, [pointer])
      else do
        let (found, kernel', pointers) ←
          findZombieReads kernel parent fuel (some current) (kernel.pcb current).nextInTable
        some (found, kernel', pointer :: pointers)

theorem findZombieReads_value (kernel : Kernel A) (parent : Addr) (fuel : Nat)
    (prev current : Option Addr) :
    (findZombieReads kernel parent fuel prev current).map (fun result => (result.1, result.2.1)) =
      findZombie kernel parent fuel prev current := by
  induction fuel generalizing prev current with
  | zero => rfl
  | succ fuel ih =>
      cases current with
      | none => rfl
      | some current =>
          rw [findZombieReads, findZombie]
          dsimp only
          split
          · rfl
          · rw [← ih (some current) (kernel.pcb current).nextInTable, Option.bind_eq_bind,
              Option.map_bind, Option.map_eq_bind]
            rfl

theorem Refines.findZombieReads_spec {kernel : Kernel A} {processes : Processes}
    (refines : Refines kernel processes) (p : Addr) (front rest : List Addr) (fuel : Nat)
    (split : processes.table = front ++ rest) (enough : rest.length < fuel) :
    ∃ found kernel', findZombieReads kernel p fuel front.getLast? rest.head? =
      some (found, kernel',
        (inspected (processes.isZombieChild p) rest).map processes.parent) := by
  induction rest generalizing fuel front with
  | nil =>
      obtain ⟨m, rfl⟩ : ∃ m, fuel = m + 1 := ⟨fuel - 1, by omega⟩
      exact ⟨none, kernel, rfl⟩
  | cons child rest ih =>
      obtain ⟨m, rfl⟩ : ∃ m, fuel = m + 1 := ⟨fuel - 1, by omega⟩
      rw [List.head?_cons, findZombieReads, inspected]
      dsimp only
      by_cases zombie : processes.isZombieChild p child = true
      · rw [if_pos ((refines.test_iff p child).mpr zombie), if_pos zombie, List.map_singleton,
          refines.parent_eq]
        exact ⟨_, _, rfl⟩
      · have table := refines.table
        rw [split] at table
        have next : (kernel.pcb child).nextInTable = rest.head? := table.next_eq
        have split' : processes.table = (front ++ [child]) ++ rest := by
          rw [split, List.append_assoc, List.singleton_append]
        obtain ⟨found, kernel', ran⟩ :=
          ih (front ++ [child]) m split' (by rw [List.length_cons] at enough; omega)
        rw [List.getLast?_concat] at ran
        rw [if_neg fun test => zombie ((refines.test_iff p child).mp test), if_neg zombie, next, ran,
          List.map_cons, refines.parent_eq]
        exact ⟨found, kernel', rfl⟩

/-- The loop comes to the end, or to a child, and reads no pid through NULL. -/
def Machine.ScansSafely (machine : Machine A) (p : Addr) : Prop :=
  ∃ found kernel' pointers,
    findZombieReads machine.kernel p machine.fuel none machine.kernel.processTableHead =
      some (found, kernel', pointers) ∧ none ∉ pointers

/-! ## When it is safe -/

/-- Whoever has no parent stands behind a zombie child of `p` in the table. -/
def Kernel.ZombieBeforeOrphans (kernel : Kernel A) (p : Addr) : Prop :=
  ∀ newer a older,
    Chain kernel.pcb.nextInTable kernel.processTableHead (newer ++ a :: older) none →
      (kernel.pcb a).parent = none →
        ∃ child ∈ newer, kernel.pidOf (kernel.pcb child).parent = (kernel.pcb p).pid ∧
          (kernel.pcb child).state = .zombie

def Machine.searcher (machine : Machine A) : Action → Option Addr
  | .wait _ _ => machine.caller
  | .resume => machine.resumer
  | _ => none

theorem Refines.zombieBeforeOrphans_iff {kernel : Kernel A} {processes : Processes}
    (refines : Refines kernel processes) (p : Addr) :
    kernel.ZombieBeforeOrphans p ↔
      none ∉ (inspected (processes.isZombieChild p) processes.table).map processes.parent := by
  constructor
  · intro ordered member
    obtain ⟨a, seen, orphan⟩ := List.mem_map.mp member
    obtain ⟨newer, older, split, before⟩ := (mem_inspected_iff ..).mp seen
    have chain := refines.table
    rw [split] at chain
    obtain ⟨child, present, test⟩ := ordered newer a older chain ((refines.parent_eq a).trans orphan)
    have zombie := (refines.test_iff p child).mp test
    rw [before child present] at zombie
    cases zombie
  · intro safe newer a older chain orphan
    by_contra unsheltered
    have split := refines.table.unique chain
    have passed : ∀ child ∈ newer, processes.isZombieChild p child = false := by
      intro child present
      rw [Bool.eq_false_iff]
      intro zombie
      exact unsheltered ⟨child, present, (refines.test_iff p child).mpr zombie⟩
    have seen : a ∈ inspected (processes.isZombieChild p) processes.table :=
      (mem_inspected_iff ..).mpr ⟨newer, older, split, passed⟩
    exact safe (List.mem_map.mpr ⟨a, seen, (refines.parent_eq a).symm.trans orphan⟩)

theorem scansSafely_iff {alloc : IsolatingAllocator A} {machine : Machine A}
    (invariant : MachineInvariant alloc machine) (p : Addr) :
    machine.ScansSafely p ↔ machine.kernel.ZombieBeforeOrphans p := by
  obtain ⟨spec, shows, orderly⟩ := invariant
  have refines := shows.refines
  obtain ⟨found, kernel', ran⟩ :=
    refines.findZombieReads_spec p [] spec.processes.table machine.fuel rfl (shows.enough orderly)
  rw [← refines.table.start_eq, List.getLast?_nil] at ran
  rw [refines.zombieBeforeOrphans_iff]
  constructor
  · rintro ⟨found', kernel'', pointers, ran', safe⟩
    rw [ran, Option.some.injEq, Prod.mk.injEq, Prod.mk.injEq] at ran'
    rw [ran'.2.2]
    exact safe
  · intro safe
    exact ⟨found, kernel', _, ran, safe⟩

/-- In a run no search of a `wait_syscall` reads through NULL exactly if every search comes
to a zombie child before it comes to a process without a parent. -/
theorem wait_scan_safe_iff (alloc : IsolatingAllocator A) {first last : Machine A}
    {trace : List (Transition (Machine A) Action)}
    (initial : (processSystem alloc.toAllocator).initial first)
    (run : (processSystem alloc.toAllocator).Trace first trace last) :
    (∀ transition ∈ trace, ∀ p, transition.before.searcher transition.action = some p →
      transition.before.ScansSafely p) ↔
    ∀ transition ∈ trace, ∀ p, transition.before.searcher transition.action = some p →
      transition.before.kernel.ZombieBeforeOrphans p := by
  refine run.meets_iff (MachineInvariant alloc)
    (fun transition => ∀ p, transition.before.searcher transition.action = some p →
      transition.before.ScansSafely p)
    (fun machine action => ∀ p, machine.searcher action = some p →
      machine.kernel.ZombieBeforeOrphans p) ?_ (machineInvariant_initial alloc initial)
  intro machine action next invariant taken
  refine ⟨?_, fun _ => machineInvariant_step alloc invariant taken⟩
  exact forall_congr' fun p => imp_congr_right fun _ => scansSafely_iff invariant p

theorem wait_scan_safe_iff_forkExitWait : ∃ trace last,
    (processSystem heapAllocator.toAllocator).record bootMachine
      [.createProcess 0 1 1 2, .start 0, .fork 8188, .yield 8188 0, .exit 7 0, .wait 8188 0] =
        some (trace, last) ∧
    ((∀ transition ∈ trace, ∀ p, transition.before.searcher transition.action = some p →
      transition.before.ScansSafely p) ↔
    ∀ transition ∈ trace, ∀ p, transition.before.searcher transition.action = some p →
      transition.before.kernel.ZombieBeforeOrphans p) := by
  have runs : ((processSystem heapAllocator.toAllocator).record bootMachine
      [.createProcess 0 1 1 2, .start 0, .fork 8188, .yield 8188 0, .exit 7 0,
        .wait 8188 0]).isSome = true := by
    decide +kernel
  obtain ⟨⟨trace, last⟩, recorded⟩ := Option.isSome_iff_exists.mp runs
  exact ⟨trace, last, recorded,
    wait_scan_safe_iff heapAllocator bootMachine_initial (System.trace_of_record recorded)⟩

theorem first_wait_reads_null : ¬ ∀ machine p,
    (processSystem heapAllocator.toAllocator).Reachable machine → machine.caller = some p →
      machine.ScansSafely p := by
  intro always
  have runs : ((processSystem heapAllocator.toAllocator).record bootMachine
      [.createProcess 0 1 1 2, .start 0]).any fun run =>
        decide (run.2.caller = some 8 ∧ run.2.kernel.processTableHead = some 8 ∧
          (run.2.kernel.pcb 8).nextInTable = none ∧ (run.2.kernel.pcb 8).parent = none) := by
    decide +kernel
  obtain ⟨⟨trace, machine⟩, recorded, checked⟩ := (Option.any_eq_true ..).mp runs
  obtain ⟨caller, head, last, orphan⟩ := of_decide_eq_true checked
  have reachable : (processSystem heapAllocator.toAllocator).Reachable machine :=
    ⟨bootMachine, trace, bootMachine_initial, System.trace_of_record recorded⟩
  have invariant := reachable_machineInvariant heapAllocator reachable
  have ordered := (scansSafely_iff invariant 8).mp (always machine 8 reachable caller)
  obtain ⟨child, absent, _⟩ := ordered [] 8 [] ⟨head, last⟩ orphan
  exact absurd absent List.not_mem_nil

end ApnaOS.Process
