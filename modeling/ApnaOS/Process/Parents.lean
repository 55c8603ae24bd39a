import ApnaOS.Process.Waiting

/-!
# Parent pointers

PCBs that `kfree` returned may be given out again.  When the parent pointers of the
process table point to processes in the table that made these forks, and which steps
leave a pointer behind that does not.
-/

set_option autoImplicit false

namespace ApnaOS.Process

open ApnaOS.Lib

/-- The latest birth of `child` is a fork by `p`, and `p` was not born again since then. -/
inductive ReallyForked (p child : Addr) : List Event → Prop where
  | here (pid : Int) (earlier : List Event) :
      ReallyForked p child (.forked p child pid :: earlier)
  | later {event : Event} {earlier : List Event} (child_kept : event.born ≠ some child)
      (parent_kept : event.born ≠ some p) (forked : ReallyForked p child earlier) :
      ReallyForked p child (event :: earlier)

namespace ReallyForked

variable {p child : Addr} {event : Event} {earlier : List Event}

theorem of_cons (forked : ReallyForked p child (event :: earlier))
    (child_kept : event.born ≠ some child) : ReallyForked p child earlier := by
  cases forked with
  | here pid => exact absurd rfl child_kept
  | later _ _ forked => exact forked

theorem cons_iff (unborn : event.born = none) :
    ReallyForked p child (event :: earlier) ↔ ReallyForked p child earlier := by
  constructor
  · intro forked
    exact forked.of_cons (by simp [unborn])
  · exact .later (by simp [unborn]) (by simp [unborn])

end ReallyForked

/-! ## In the model -/

namespace Processes

def NoDanglingParents (processes : Processes) (history : List Event) : Prop :=
  ∀ c ∈ processes.table, ∀ p, processes.parent c = some p →
    p ∈ processes.table ∧ ReallyForked p c history

/-- Whoever was forked has the parent pointer of that fork. -/
def ForksRecorded (processes : Processes) (history : List Event) : Prop :=
  ∀ c ∈ processes.table, ∀ p, ReallyForked p c history → processes.parent c = some p

/-- `child` is a child of `p` and nobody in the table has it as parent. -/
def OwnLeaf (processes : Processes) (p child : Addr) : Prop :=
  processes.parent child = some p ∧ ∀ c ∈ processes.table, processes.parent c ≠ some child

section Keep

variable {before after : Processes} {history history' : List Event}

structure SameParents (before after : Processes) : Prop where
  table : after.table = before.table
  parent : ∀ c ∈ before.table, after.parent c = before.parent c

theorem SameParents.noDangling_iff (same : SameParents before after)
    (forked : ∀ p c, ReallyForked p c history' ↔ ReallyForked p c history) :
    after.NoDanglingParents history' ↔ before.NoDanglingParents history := by
  rw [NoDanglingParents, same.table]
  refine forall_congr' fun c => forall_congr' fun present => ?_
  rw [same.parent c present]
  simp only [forked]

theorem SameParents.forksRecorded (same : SameParents before after)
    (forked : ∀ p c, ReallyForked p c history' ↔ ReallyForked p c history)
    (recorded : before.ForksRecorded history) : after.ForksRecorded history' := by
  intro c present p made
  rw [same.table] at present
  rw [same.parent c present]
  exact recorded c present p ((forked p c).mp made)

theorem SameParents.refl (processes : Processes) : SameParents processes processes :=
  ⟨rfl, fun _ _ => rfl⟩

theorem SameParents.trans {middle : Processes} (first : SameParents before middle)
    (second : SameParents middle after) : SameParents before after where
  table := second.table.trans first.table
  parent := fun c present =>
    (second.parent c (by rwa [first.table])).trans (first.parent c present)

theorem SameButTurns.sameParents (turns : SameButTurns before after) : SameParents before after :=
  ⟨turns.table, fun c _ => turns.parent_eq c⟩

theorem sameParents_setState (processes : Processes) (p : Addr) (state : ProcessState) :
    SameParents processes (processes.setState p state) :=
  ⟨rfl, fun c _ => parent_setState processes p c state⟩

theorem sameParents_exit (processes : Processes) (p : Addr) (status : Int) :
    SameParents processes (processes.exit p status) :=
  ⟨table_exit _ _ _, fun c _ => parent_exit processes p c status⟩

theorem sameParents_forkChild {processes : Processes} {p child : Addr}
    (fresh : child ∉ processes.table) :
    SameParents processes (processes.forkChild p child) := by
  refine ⟨rfl, ?_⟩
  intro c present
  have different : c ≠ child := fun same => fresh (same ▸ present)
  rw [parent, proc_forkChild, if_neg different]
  rfl

theorem ForksRecorded.birth {p : Addr} {event : Event} (recorded : before.ForksRecorded history)
    (table : after.table = p :: before.table)
    (others : ∀ c, c ≠ p → after.proc c = before.proc c) (born : event.born = some p)
    (named : ∀ q pid, event = .forked q p pid → after.parent p = some q) :
    after.ForksRecorded (event :: history) := by
  intro c present q forked
  rw [table, List.mem_cons] at present
  by_cases same : c = p
  · rw [same] at forked ⊢
    cases forked with
    | here pid => exact named q pid rfl
    | later child_kept _ _ => exact absurd born child_kept
  · have old := present.resolve_left same
    have kept : event.born ≠ some c := by
      rw [born, ne_eq, Option.some.injEq]
      exact fun equal => same equal.symm
    rw [parent, others c same]
    exact recorded c old q (forked.of_cons kept)

theorem NoDanglingParents.birth_iff {p : Addr} {event : Event}
    (holds : before.NoDanglingParents history) (fresh : p ∉ before.table)
    (table : after.table = p :: before.table)
    (others : ∀ c, c ≠ p → after.proc c = before.proc c) (born : event.born = some p) :
    after.NoDanglingParents (event :: history) ↔
      ∀ q, after.parent p = some q → q ∈ after.table ∧ ReallyForked q p (event :: history) := by
  constructor
  · intro safe
    exact safe p (by rw [table]; exact List.mem_cons_self)
  · intro safe c present q parent
    rw [table, List.mem_cons] at present
    by_cases same : c = p
    · rw [same] at parent ⊢
      exact safe q parent
    · rw [Processes.parent, others c same] at parent
      have old := present.resolve_left same
      obtain ⟨present', forked⟩ := holds c old q parent
      refine ⟨by rw [table]; exact List.mem_cons_of_mem p present', .later ?_ ?_ forked⟩
      · rw [born, ne_eq, Option.some.injEq]
        exact fun equal => same equal.symm
      · rw [born, ne_eq, Option.some.injEq]
        exact fun equal => fresh (equal ▸ present')

theorem NoDanglingParents.unlink_iff {child : Addr} {event : Event}
    (holds : before.NoDanglingParents history) (nodup : before.table.Nodup)
    (unborn : event.born = none) :
    (before.unlink child).NoDanglingParents (event :: history) ↔
      ∀ c ∈ before.table, c ≠ child → before.parent c ≠ some child := by
  constructor
  · intro safe c present different parent
    have gone := (safe c ((List.mem_erase_of_ne different).mpr present) child parent).1
    exact (nodup.mem_erase_iff.mp gone).1 rfl
  · intro leaf c present p parent
    obtain ⟨different, present'⟩ := nodup.mem_erase_iff.mp present
    obtain ⟨inTable, forked⟩ := holds c present' p parent
    have kept : p ≠ child := by
      intro same
      rw [same] at parent
      exact leaf c present' different parent
    exact ⟨(List.mem_erase_of_ne kept).mpr inTable, (ReallyForked.cons_iff unborn).mpr forked⟩

end Keep

end Processes

namespace Spec

/-- A step that leaves no dangling parent pointer, reaps only children of the caller and
wakes only the parent of the process that exits. -/
structure FamilyStep (spec : Spec) (action : Action) (next : Spec) : Prop where
  parents : next.processes.NoDanglingParents next.control.history
  reaps : ∀ p resumed result child,
    next.control.history = .waitReturned p resumed result :: spec.control.history →
      result.reaped = some child → ReallyForked p child spec.control.history
  wakes : ∀ p status esp q, action = .exit status esp → spec.caller = some p →
    spec.processes.state q = .blocked → next.processes.state q ≠ .blocked →
      ReallyForked q p spec.control.history

def KeepsParents (spec : Spec) (action : Action) (next : Spec) : Prop :=
  match action with
  | .createProcess .. =>
      ∀ p, next.control.born = p :: spec.control.born → spec.processes.parent p = none
  | .wait _ _ => ∀ p, spec.caller = some p →
      ∀ child, spec.processes.zombieChild p = some child → spec.processes.OwnLeaf p child
  | .resume => ∀ p, spec.resumer = some p →
      ∀ child, spec.processes.zombieChild p = some child → spec.processes.OwnLeaf p child
  | _ => True

section Step

variable {spec next : Spec} {action : Action} {p child : Addr}

theorem FamilyStep.quiet (parents : next.processes.NoDanglingParents next.control.history)
    (silent : ∀ p resumed result,
      next.control.history = .waitReturned p resumed result :: spec.control.history →
        result.reaped = none)
    (no_exit : ∀ status esp, action ≠ .exit status esp) : FamilyStep spec action next := by
  refine ⟨parents, ?_, ?_⟩
  · intro p resumed result child returned reaped
    rw [silent p resumed result returned] at reaped
    cases reaped
  · intro p status esp q exits
    exact absurd exits (no_exit status esp)

theorem forksRecorded_step (orderly : spec.Orderly)
    (recorded : spec.processes.ForksRecorded spec.control.history)
    (taken : Step spec action next) :
    next.processes.ForksRecorded next.control.history := by
  have sound := orderly.sound
  have nothing : ∀ p c, ReallyForked p c spec.control.history ↔
      ReallyForked p c spec.control.history := fun _ _ => Iff.rfl
  cases taken with
  | @created e priority d t p accepts fresh =>
      refine recorded.birth rfl ?_ rfl ?_
      · intro c different
        rw [Processes.proc_create, if_neg different]
      · intro q pid clash
        cases clash
  | notCreated accepts => exact recorded
  | started inCli | yielded caller =>
      exact sound.schedule_turns.sameParents.forksRecorded nothing recorded
  | @forked ebp p child caller fresh =>
      refine recorded.birth rfl ?_ rfl ?_
      · intro c different
        rw [Processes.proc_fork, if_neg different]
      · intro q pid same
        rw [Event.forked.injEq] at same
        rw [Processes.parent, Processes.proc_fork, if_pos rfl, same.1]
  | noChild caller => exact recorded
  | @lostChild ebp p child caller fresh =>
      exact (Processes.sameParents_forkChild fresh).forksRecorded nothing recorded
  | collected caller found | resumed resumer found =>
      intro c present p forked
      exact recorded c (List.mem_of_mem_erase present) p ((ReallyForked.cons_iff rfl).mp forked)
  | @suspended ebp esp p caller none_found =>
      obtain ⟨present, runs⟩ := orderly.caller_runs caller
      have sound' := sound.block present runs
      exact ((Processes.sameParents_setState _ p _).trans
        sound'.schedule_turns.sameParents).forksRecorded nothing recorded
  | missed resumer none_found =>
      exact (Processes.SameParents.refl _).forksRecorded (fun _ _ => ReallyForked.cons_iff rfl)
        recorded
  | @exited status esp p caller =>
      obtain ⟨present, runs⟩ := orderly.caller_runs caller
      exact ((Processes.sameParents_exit _ p status).trans
        (sound.exit present runs status).schedule_turns.sameParents).forksRecorded
          (fun _ _ => ReallyForked.cons_iff rfl) recorded
  | @stateExited ebp esp p caller =>
      obtain ⟨present, runs⟩ := orderly.caller_runs caller
      have sound' := sound.stop present runs
      exact ((Processes.sameParents_setState _ p _).trans
        sound'.schedule_turns.sameParents).forksRecorded nothing recorded

theorem familyStep_unlink_iff (orderly : spec.Orderly)
    (recorded : spec.processes.ForksRecorded spec.control.history)
    (holds : spec.processes.NoDanglingParents spec.control.history) (resumed : Bool)
    (runs : spec.processes.state p = .running)
    (found : spec.processes.zombieChild p = some child)
    {control : Control} (history : control.history =
      .waitReturned p resumed (spec.processes.collected child) :: spec.control.history)
    (no_exit : ∀ status esp, action ≠ .exit status esp) :
    FamilyStep spec action ⟨spec.processes.unlink child, control⟩ ↔
      spec.processes.OwnLeaf p child := by
  obtain ⟨present, test⟩ := zombieChild_spec found
  have zombie := (isZombieChild_iff.mp test).2
  have leaves : (spec.processes.unlink child).NoDanglingParents control.history ↔
      ∀ c ∈ spec.processes.table, c ≠ child → spec.processes.parent c ≠ some child := by
    rw [history]
    exact holds.unlink_iff orderly.sound.table_nodup rfl
  constructor
  · intro step
    have parent := recorded child present p (step.reaps p resumed _ child history rfl)
    refine ⟨parent, ?_⟩
    intro c present' parent'
    by_cases same : c = child
    · rw [same, parent, Option.some.injEq] at parent'
      rw [parent', zombie] at runs
      cases runs
    · exact leaves.mp step.parents c present' same parent'
  · intro own
    refine ⟨leaves.mpr fun c present' _ => own.2 c present', ?_, ?_⟩
    · intro q resumed' result c returned reaped
      rw [history, List.cons.injEq, Event.waitReturned.injEq] at returned
      obtain ⟨⟨rfl, _, rfl⟩, _⟩ := returned
      rw [Processes.collected, Option.some.injEq] at reaped
      rw [← reaped]
      exact (holds child present p own.1).2
    · intro q status esp r exits
      exact absurd exits (no_exit status esp)

/-- `create_process` does not write `parent`, so what counts is what the PCB held before. -/
theorem familyStep_create_iff {e : Nat} {priority d t : Int}
    (holds : spec.processes.NoDanglingParents spec.control.history)
    (fresh : p ∉ spec.processes.table) :
    FamilyStep spec (.createProcess e priority d t)
        ⟨spec.processes.create p priority, spec.control.log (.created p)⟩ ↔
      spec.processes.parent p = none := by
  have others : ∀ c, c ≠ p → (spec.processes.create p priority).proc c = spec.processes.proc c := by
    intro c different
    rw [Processes.proc_create, if_neg different]
  have stale : (spec.processes.create p priority).parent p = spec.processes.parent p := by
    rw [Processes.parent, Processes.proc_create, if_pos rfl]
    rfl
  have birth : (spec.processes.create p priority).NoDanglingParents
      (.created p :: spec.control.history) ↔
        ∀ q, (spec.processes.create p priority).parent p = some q →
          q ∈ p :: spec.processes.table ∧
            ReallyForked q p (.created p :: spec.control.history) :=
    holds.birth_iff fresh rfl others rfl
  constructor
  · intro step
    rw [← stale]
    by_contra named
    obtain ⟨r, parent⟩ := Option.ne_none_iff_exists'.mp named
    have forked := (birth.mp step.parents r parent).2
    cases forked with
    | later child_kept _ _ => exact child_kept rfl
  · intro orphan
    refine .quiet (birth.mpr ?_) ?_ (by simp)
    · intro q parent
      rw [stale, orphan] at parent
      cases parent
    · intro q resumed result clash
      cases clash

theorem familyStep_exit {status : Int} {esp : Nat} (orderly : spec.Orderly)
    (holds : spec.processes.NoDanglingParents spec.control.history)
    (caller : spec.caller = some p) :
    FamilyStep spec (.exit status esp)
      (reschedule (spec.processes.exit p status) (spec.control.log (.exited p status))) := by
  obtain ⟨present, runs⟩ := orderly.caller_runs caller
  have turns := (orderly.sound.exit present runs status).schedule_turns
  have same := (Processes.sameParents_exit spec.processes p status).trans turns.sameParents
  refine ⟨(same.noDangling_iff fun _ _ => ReallyForked.cons_iff rfl).mpr holds, ?_, ?_⟩
  · intro q resumed result c clash
    cases clash
  · intro q status' esp' r exits caller' blocks unblocked
    rw [caller', Option.some.injEq] at caller
    rw [caller] at caller' ⊢
    have woken : (spec.processes.exit p status).state r ≠ .blocked :=
      fun still => unblocked ((turns.state_iff r (by simp [Awake])).mpr still)
    have parent : spec.processes.parent p = some r := by
      by_contra stranger
      have different : r ≠ p := by
        intro equal
        rw [equal, runs] at blocks
        cases blocks
      exact woken ((Processes.state_exit_blocked_iff ..).mpr ⟨different, blocks, stranger⟩)
    exact (holds p present r parent).2

theorem familyStep_iff (orderly : spec.Orderly)
    (recorded : spec.processes.ForksRecorded spec.control.history)
    (holds : spec.processes.NoDanglingParents spec.control.history)
    (taken : Step spec action next) :
    FamilyStep spec action next ↔ KeepsParents spec action next := by
  have sound := orderly.sound
  have nothing : ∀ p c, ReallyForked p c spec.control.history ↔
      ReallyForked p c spec.control.history := fun _ _ => Iff.rfl
  have silent : ∀ p resumed result,
      spec.control.history = .waitReturned p resumed result :: spec.control.history →
        result.reaped = none :=
    fun p resumed result clash => absurd clash.symm (List.cons_ne_self _ _)
  cases taken with
  | @created e priority d t p accepts fresh =>
      rw [familyStep_create_iff holds fresh]
      constructor
      · intro orphan q born
        rw [← (List.cons.inj born).1]
        exact orphan
      · exact fun orphan => orphan p rfl
  | notCreated accepts =>
      apply iff_of_true (.quiet holds silent (by simp))
      intro p born
      exact absurd born.symm (List.cons_ne_self _ _)
  | started inCli | yielded caller =>
      exact iff_of_true (.quiet ((sound.schedule_turns.sameParents.noDangling_iff nothing).mpr holds)
        silent (by simp)) trivial
  | @forked ebp p child caller fresh =>
      obtain ⟨present, _⟩ := orderly.caller_runs caller
      refine iff_of_true (.quiet ?_ ?_ (by simp)) trivial
      · refine (holds.birth_iff fresh rfl ?_ rfl).mpr ?_
        · intro c different
          rw [Processes.proc_fork, if_neg different]
        · intro q parent
          rw [Processes.parent, Processes.proc_fork, if_pos rfl, Option.some.injEq] at parent
          rw [← parent]
          exact ⟨List.mem_cons_of_mem child present, .here _ _⟩
      · intro q resumed result clash
        cases clash
  | noChild caller => exact iff_of_true (.quiet holds silent (by simp)) trivial
  | @lostChild ebp p child caller fresh =>
      have same := Processes.sameParents_forkChild (p := p) fresh
      exact iff_of_true (.quiet ((same.noDangling_iff nothing).mpr holds) silent (by simp)) trivial
  | @collected ebp esp p child caller found =>
      obtain ⟨_, runs⟩ := orderly.caller_runs caller
      rw [familyStep_unlink_iff orderly recorded holds false runs found rfl (by simp)]
      simp [KeepsParents, caller, found]
  | @suspended ebp esp p caller none_found =>
      obtain ⟨present, runs⟩ := orderly.caller_runs caller
      have sound' := sound.block present runs
      have same := (Processes.sameParents_setState spec.processes p .blocked).trans
        sound'.schedule_turns.sameParents
      apply iff_of_true (.quiet ((same.noDangling_iff nothing).mpr holds) silent (by simp))
      simp [KeepsParents, caller, none_found]
  | @resumed p child resumer found =>
      obtain ⟨inCli, current, _⟩ := resumer_eq_some.mp resumer
      have runs := (orderly.current_runs inCli current).2
      rw [familyStep_unlink_iff orderly recorded holds true runs found rfl (by simp)]
      simp [KeepsParents, resumer, found]
  | @missed p resumer none_found =>
      have kept : spec.processes.NoDanglingParents
          (.waitReturned p true ⟨-1, none, none⟩ :: spec.control.history) :=
        ((Processes.SameParents.refl _).noDangling_iff fun _ _ => ReallyForked.cons_iff rfl).mpr
          holds
      refine iff_of_true (.quiet kept ?_ (by simp)) ?_
      · intro q resumed result returned
        obtain ⟨latest, _⟩ := List.cons.inj returned
        cases latest
        rfl
      · simp [KeepsParents, resumer, none_found]
  | @exited status esp p caller => exact iff_of_true (familyStep_exit orderly holds caller) trivial
  | @stateExited ebp esp p caller =>
      obtain ⟨present, runs⟩ := orderly.caller_runs caller
      have sound' := sound.stop present runs
      have same := (Processes.sameParents_setState spec.processes p .exit).trans
        sound'.schedule_turns.sameParents
      exact iff_of_true (.quiet ((same.noDangling_iff nothing).mpr holds) silent (by simp)) trivial

end Step

end Spec

/-! ## In the kernel -/

variable {A : Type}

namespace Kernel

/-- The test of `find_zombie_child`. -/
def IsZombieChild (kernel : Kernel A) (p child : Addr) : Prop :=
  kernel.pidOf (kernel.pcb child).parent = (kernel.pcb p).pid ∧
    (kernel.pcb child).state = .zombie

/-- `find_zombie_child` meets `child` before all others that pass its test. -/
def FirstZombie (kernel : Kernel A) (p child : Addr) : Prop :=
  ∃ front back,
    Chain kernel.pcb.nextInTable kernel.processTableHead (front ++ child :: back) none ∧
      kernel.IsZombieChild p child ∧ ∀ c ∈ front, ¬ kernel.IsZombieChild p c

/-- `child` is a child of `p` and nobody in the table has it as parent. -/
def OwnLeaf (kernel : Kernel A) (p child : Addr) : Prop :=
  (kernel.pcb child).parent = some p ∧
    ∀ c, kernel.InTable c → (kernel.pcb c).parent ≠ some child

end Kernel

namespace Machine

/-- Every parent pointer in the process table is NULL or points to a process in the
table that made this fork. -/
def NoDanglingParents (machine : Machine A) : Prop :=
  ∀ c, machine.kernel.InTable c → ∀ p, (machine.kernel.pcb c).parent = some p →
    machine.kernel.InTable p ∧ ReallyForked p c machine.control.history

/-- `create_process` gets memory for its PCB at `p`, and memory for a stack. -/
def CreatesAt (alloc : Allocator A) (machine : Machine A) (p : Addr) : Prop :=
  ∃ a stack a', alloc.kmalloc machine.kernel.allocator pcbSize = (some p, a) ∧
    alloc.kmalloc a 4096 = (some stack, a')

/-- A process is created in memory whose parent field is NULL, and a wait reaps a child
of the caller that has no child left in the table. -/
def KeepsParents (alloc : Allocator A) (machine : Machine A) : Action → Prop
  | .createProcess .. => ∀ p, machine.CreatesAt alloc p → (machine.kernel.pcb p).parent = none
  | .wait _ _ => ∀ p, machine.caller = some p →
      ∀ child, machine.kernel.FirstZombie p child → machine.kernel.OwnLeaf p child
  | .resume => ∀ p, machine.resumer = some p →
      ∀ child, machine.kernel.FirstZombie p child → machine.kernel.OwnLeaf p child
  | _ => True

end Machine

/-- No dangling parent pointer after the step, which reaped only children of the caller
and woke only the parent of the process that exited. -/
structure FamilyTransition (transition : Transition (Machine A) Action) : Prop where
  parents : transition.after.NoDanglingParents
  reaps : ∀ p resumed result child, transition.after.control.history =
      .waitReturned p resumed result :: transition.before.control.history →
    result.reaped = some child → ReallyForked p child transition.before.control.history
  wakes : ∀ p status esp q, transition.action = .exit status esp →
    transition.before.caller = some p → (transition.before.kernel.pcb q).state = .blocked →
      (transition.after.kernel.pcb q).state ≠ .blocked →
        ReallyForked q p transition.before.control.history

namespace Refines

variable {kernel : Kernel A} {processes : Processes}

theorem firstZombie_iff (refines : Refines kernel processes) (p child : Addr) :
    kernel.FirstZombie p child ↔ processes.zombieChild p = some child := by
  have test : ∀ c, kernel.IsZombieChild p c ↔ processes.isZombieChild p c = true :=
    refines.test_iff p
  rw [Processes.zombieChild, List.find?_eq_some_iff_append]
  constructor
  · rintro ⟨front, back, chain, zombie, others⟩
    refine ⟨(test child).mp zombie, front, back, refines.table.unique chain, ?_⟩
    intro c present
    rw [Bool.not_eq_true', ← Bool.not_eq_true, ← test]
    exact others c present
  · rintro ⟨zombie, front, back, split, others⟩
    refine ⟨front, back, split ▸ refines.table, (test child).mpr zombie, ?_⟩
    intro c present found
    have passed := others c present
    rw [(test c).mp found] at passed
    cases passed

theorem ownLeaf_iff (refines : Refines kernel processes) (p child : Addr) :
    kernel.OwnLeaf p child ↔ processes.OwnLeaf p child := by
  rw [Kernel.OwnLeaf, Processes.OwnLeaf, refines.parent_eq]
  simp only [refines.inTable_iff, refines.parent_eq]

end Refines

theorem createProcess_eq_some {alloc : Allocator A} {fuel pid e : Nat} {priority d t : Int}
    {kernel kernel' : Kernel A} {process : Option Addr}
    (ran : createProcess alloc fuel kernel pid e priority d t = some (process, kernel')) (p : Addr) :
    process = some p ↔ ∃ a stack a', alloc.kmalloc kernel.allocator pcbSize = (some p, a) ∧
      alloc.kmalloc a 4096 = (some stack, a') := by
  obtain ⟨⟨first, a₁⟩, given₁⟩ : ∃ r, alloc.kmalloc kernel.allocator pcbSize = r := ⟨_, rfl⟩
  cases first with
  | none =>
      simp only [createProcess, Kernel.kmalloc, given₁, Option.some.injEq, Prod.mk.injEq] at ran
      simp [← ran.1, given₁]
  | some q =>
      obtain ⟨⟨second, a₂⟩, given₂⟩ : ∃ r, alloc.kmalloc a₁ 4096 = r := ⟨_, rfl⟩
      cases second with
      | none =>
          simp only [createProcess, Kernel.kmalloc, given₁, given₂, Option.some.injEq,
            Prod.mk.injEq] at ran
          simp only [← ran.1, given₁, reduceCtorEq, Prod.mk.injEq, Option.some.injEq, false_iff]
          rintro ⟨a, stack, a', ⟨_, rfl⟩, clash⟩
          rw [given₂] at clash
          cases clash
      | some stack =>
          simp only [createProcess, Kernel.kmalloc, given₁, given₂] at ran
          obtain ⟨queued, _, same⟩ := Option.bind_eq_some_iff.mp ran
          rw [Option.some.injEq, Prod.mk.injEq] at same
          rw [← same.1, given₁]
          constructor
          · intro equal
            exact ⟨a₁, stack, a₂, by rw [equal], given₂⟩
          · rintro ⟨a, _, _, equal, _⟩
            exact (Prod.mk.inj equal).1

theorem Machine.createsAt_iff {alloc : Allocator A} {machine next : Machine A} {e : Nat}
    {priority d t : Int}
    (taken : machine.step alloc (.createProcess e priority d t) = some next) (p : Addr) :
    machine.CreatesAt alloc p ↔ next.control.born = p :: machine.control.born := by
  have enabled := enabled_of_step taken
  rw [Machine.Enabled] at enabled
  simp only [Machine.step, enabled, if_true] at taken
  obtain ⟨⟨process, kernel⟩, ran, named⟩ := Option.bind_eq_some_iff.mp taken
  apply (createProcess_eq_some ran p).symm.trans
  cases process with
  | none =>
      rw [← Option.some.inj named]
      simp
  | some q =>
      rw [← Option.some.inj named]
      simp [Control.born, Control.log, Event.born]

section Transition

variable {alloc : IsolatingAllocator A} {machine next : Machine A} {spec next' : Spec}
variable {action : Action}

theorem Shows.noDangling_iff (shows : Shows alloc machine spec) : machine.NoDanglingParents ↔
    spec.processes.NoDanglingParents spec.control.history := by
  have refines := shows.refines
  rw [Machine.NoDanglingParents, Processes.NoDanglingParents, shows.control]
  simp only [refines.inTable_iff, refines.parent_eq]

theorem Shows.familyTransition_iff (shows : Shows alloc machine spec)
    (shows' : Shows alloc next next') :
    FamilyTransition ⟨machine, action, next⟩ ↔ Spec.FamilyStep spec action next' := by
  constructor
  · intro good
    refine ⟨shows'.noDangling_iff.mp good.parents, ?_, ?_⟩
    · rw [← shows.control, ← shows'.control]
      exact good.reaps
    · rw [← shows.control, ← shows.caller_eq]
      intro p status esp q exits caller blocks unblocked
      rw [← shows.refines.state_eq] at blocks
      rw [← shows'.refines.state_eq] at unblocked
      exact good.wakes p status esp q exits caller blocks unblocked
  · intro good
    refine ⟨shows'.noDangling_iff.mpr good.parents, ?_, ?_⟩
    · rw [shows.control, shows'.control]
      exact good.reaps
    · rw [shows.control, shows.caller_eq]
      intro p status esp q exits caller blocks unblocked
      rw [shows.refines.state_eq] at blocks
      rw [shows'.refines.state_eq] at unblocked
      exact good.wakes p status esp q exits caller blocks unblocked

theorem Shows.keepsParents_iff (shows : Shows alloc machine spec) (shows' : Shows alloc next next')
    (taken : machine.step alloc.toAllocator action = some next) :
    machine.KeepsParents alloc.toAllocator action ↔ Spec.KeepsParents spec action next' := by
  have refines := shows.refines
  cases action with
  | createProcess e priority d t =>
      simp only [Machine.KeepsParents, Spec.KeepsParents, Machine.createsAt_iff taken,
        shows.control, shows'.control, refines.parent_eq]
  | wait ebp esp =>
      simp only [Machine.KeepsParents, Spec.KeepsParents, shows.caller_eq, refines.firstZombie_iff,
        refines.ownLeaf_iff]
  | resume =>
      simp only [Machine.KeepsParents, Spec.KeepsParents, shows.resumer_eq,
        refines.firstZombie_iff, refines.ownLeaf_iff]
  | _ => exact Iff.rfl

end Transition

/-- Some orderly state of the model without dangling parent pointers is shown. -/
def FamilyInvariant (alloc : IsolatingAllocator A) (machine : Machine A) : Prop :=
  ∃ spec, Shows alloc machine spec ∧ spec.Orderly ∧
    spec.processes.ForksRecorded spec.control.history ∧
    spec.processes.NoDanglingParents spec.control.history

theorem familyInvariant_initial (alloc : IsolatingAllocator A) {machine : Machine A}
    (initial : machine.Initial) : FamilyInvariant alloc machine := by
  obtain ⟨spec, shows, orderly⟩ := machineInvariant_initial alloc initial
  have empty : spec.processes.table = [] := by
    have table := shows.refines.table
    rw [initial.table] at table
    exact table.unique rfl
  refine ⟨spec, shows, orderly, ?_, ?_⟩
  · intro c present
    simp [empty] at present
  · intro c present
    simp [empty] at present

/-- In a run no parent pointer ever dangles, waits reap only children of their callers
and exits wake only parents, exactly if every step of the run meets the condition. -/
theorem no_dangling_parents_iff (alloc : IsolatingAllocator A) {first last : Machine A}
    {trace : List (Transition (Machine A) Action)}
    (initial : (processSystem alloc.toAllocator).initial first)
    (run : (processSystem alloc.toAllocator).Trace first trace last) :
    (∀ transition ∈ trace, FamilyTransition transition) ↔
      ∀ transition ∈ trace,
        transition.before.KeepsParents alloc.toAllocator transition.action := by
  refine run.meets_iff (FamilyInvariant alloc) FamilyTransition
    (Machine.KeepsParents alloc.toAllocator) ?_ (familyInvariant_initial alloc initial)
  intro machine action next invariant taken
  obtain ⟨spec, shows, orderly, recorded, holds⟩ := invariant
  obtain ⟨next', spec', simulated⟩ := shows.simulate orderly (enabled_of_step taken)
  have same : next = next' := Option.some.inj (taken.symm.trans simulated.taken)
  rw [← same] at simulated
  have shows' := simulated.shows
  rw [shows.familyTransition_iff shows', shows.keepsParents_iff shows' taken]
  refine ⟨Spec.familyStep_iff orderly recorded holds simulated.step, ?_⟩
  intro good
  exact ⟨spec', shows', orderly.step simulated.step,
    Spec.forksRecorded_step orderly recorded simulated.step, good.parents⟩

theorem no_dangling_parents_iff_forkExitWait : ∃ trace last,
    (processSystem heapAllocator.toAllocator).record bootMachine forkExitWait =
        some (trace, last) ∧
      ((∀ transition ∈ trace, FamilyTransition transition) ↔ ∀ transition ∈ trace,
        transition.before.KeepsParents heapAllocator.toAllocator transition.action) := by
  obtain ⟨trace, last, recorded⟩ := forkExitWait_recorded
  exact ⟨trace, last, recorded, no_dangling_parents_iff heapAllocator bootMachine_initial
    (System.trace_of_record recorded)⟩

/-- The process at 8 forks the one at 20488 and yields to it; that one forks the one at 40968
and exits.  Reaping it leaves the grandchild with a pointer to freed memory. -/
def reapedByGrandparent : List Action :=
  [.createProcess 0 1 1 2, .start 0, .fork 0, .yield 0 0, .fork 0, .exit 0 0, .wait 0 0]

theorem grandchild_dangles : ¬ ∀ machine,
    (processSystem heapAllocator.toAllocator).Reachable machine → machine.NoDanglingParents := by
  intro always
  have runs : ((processSystem heapAllocator.toAllocator).record bootMachine
      reapedByGrandparent).any fun run => decide
        (Chain run.2.kernel.pcb.nextInTable run.2.kernel.processTableHead [40968, 8] none ∧
          (run.2.kernel.pcb 40968).parent = some 20488) := by
    decide +kernel
  obtain ⟨⟨trace, last⟩, recorded, checked⟩ := (Option.any_eq_true ..).mp runs
  obtain ⟨table, parent⟩ := of_decide_eq_true checked
  have reached : (processSystem heapAllocator.toAllocator).Reachable last :=
    ⟨bootMachine, trace, bootMachine_initial, System.trace_of_record recorded⟩
  obtain ⟨⟨table', chain, present⟩, _⟩ :=
    always last reached 40968 ⟨_, table, by simp⟩ 20488 parent
  rw [← table.unique chain] at present
  simp at present

end ApnaOS.Process
