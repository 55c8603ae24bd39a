import ApnaOS.Process.Switching

/-!
# Where a process resumes

A process gives up the CPU through `yield_syscall` or `wait_syscall`, or it calls
`schedule` itself, as `process_test` does.  The first two save the frame to go on from in
`user_stack_ptr`, from which `schedule` resumes; a direct call saves nothing there.
-/

set_option autoImplicit false

namespace ApnaOS.Process

open ApnaOS.Lib
open Function (update update_self update_of_ne update_eq_self)

variable {A : Type}

/-- A step of the machine, or the running process calls `schedule`; `ebp` is the frame of
that call. -/
inductive Move where
  | act (action : Action)
  | schedule (ebp esp : Nat)

def Move.frame : Move → Option Nat
  | .act action => action.frame
  | .schedule ebp _ => some ebp

namespace Machine

def callSchedule (machine : Machine A) (esp : Nat) : Option (Machine A) := do
  let _ ← machine.caller
  let (next, kernel) ← schedule machine.fuel esp machine.kernel
  some ⟨kernel, machine.control.switch next⟩

def move (alloc : Allocator A) (machine : Machine A) : Move → Option (Machine A)
  | .act action => machine.step alloc action
  | .schedule _ esp => machine.callSchedule esp

/-- The kernel when the move calls `schedule`. -/
def moveCall (machine : Machine A) : Move → Option (Kernel A)
  | .act action => machine.scheduleCall action
  | .schedule _ _ => machine.caller.map fun _ => machine.kernel

end Machine

/-- A machine and the frame of each process's latest suspension, if there was one. -/
structure Journal (A : Type) where
  machine : Machine A
  frame : Addr → Option Nat

namespace Journal

/-- The frames after a move: a process that is suspended gets a new one, and a new process
has none. -/
def record (journal : Journal A) (move : Move) (next : Machine A) : Addr → Option Nat :=
  match journal.machine.moveCall move with
  | some _ =>
      match journal.machine.caller, move.frame with
      | some p, some ebp => update journal.frame p (some ebp)
      | _, _ => journal.frame
  | none =>
      match journal.machine.newborn next with
      | some p => update journal.frame p none
      | none => journal.frame

def step (alloc : Allocator A) (journal : Journal A) (move : Move) : Option (Journal A) :=
  (journal.machine.move alloc move).map fun next => ⟨next, journal.record move next⟩

/-- The process does not go on from the frame of its latest suspension when it is dispatched. -/
def Strays (journal : Journal A) (p : Addr) : Prop :=
  ∃ frame, journal.frame p = some frame ∧ (journal.machine.kernel.pcb p).userStackPtr ≠ frame

end Journal

def journalSystem (alloc : Allocator A) : System (Journal A) Move where
  initial journal := journal.machine.Initial ∧ journal.frame = fun _ => none
  step := Journal.step alloc

def resumed (transition : Transition (Journal A) Move) : Option Addr :=
  match transition.before.machine.moveCall transition.action with
  | none => none
  | some _ =>
      if transition.after.machine.control.inCli then none
      else transition.after.machine.kernel.currentProcess

/-- A process dispatched after a suspension goes on from the frame of the latest one. -/
def ResumesWhereStopped (transition : Transition (Journal A) Move) : Prop :=
  ∀ p frame, resumed transition = some p → transition.after.frame p = some frame →
    (transition.after.machine.kernel.pcb p).userStackPtr = frame

/-- The process calls `schedule` and its `user_stack_ptr` is not the frame of that call. -/
def Misfits (transition : Transition (Journal A) Move) (p : Addr) : Prop :=
  transition.before.machine.caller = some p ∧ ∃ ebp esp, transition.action = .schedule ebp esp ∧
    (transition.before.machine.kernel.pcb p).userStackPtr ≠ ebp

/-! ## A direct call as a system call -/

namespace Machine

variable {machine : Machine A} {p : Addr}

/-- A direct call of `schedule` does what a `yield_syscall` would do whose frame is already
in `user_stack_ptr`. -/
def actionOf (machine : Machine A) : Move → Action
  | .act action => action
  | .schedule _ esp =>
      .yield ((machine.caller.map fun p => (machine.kernel.pcb p).userStackPtr).getD 0) esp

theorem modify_userStackPtr (kernel : Kernel A) (p : Addr) :
    kernel.modify p (fun pcb => { pcb with userStackPtr := (kernel.pcb p).userStackPtr }) = kernel := by
  have same : kernel.pcb.modify p
      (fun pcb => { pcb with userStackPtr := (kernel.pcb p).userStackPtr }) = kernel.pcb :=
    update_eq_self p kernel.pcb
  rw [Kernel.modify, same]

theorem move_eq_step (alloc : Allocator A) (machine : Machine A) (move : Move) :
    machine.move alloc move = machine.step alloc (machine.actionOf move) := by
  cases move with
  | act action => rfl
  | schedule ebp esp =>
      cases caller : machine.caller with
      | none => simp [Machine.move, callSchedule, Machine.step, actionOf, caller]
      | some p =>
          simp [Machine.move, callSchedule, Machine.step, actionOf, caller, yieldSyscall,
            modify_userStackPtr]

theorem moveCall_eq (machine : Machine A) (move : Move) :
    machine.moveCall move = machine.scheduleCall (machine.actionOf move) := by
  cases move with
  | act action => rfl
  | schedule ebp esp =>
      cases caller : machine.caller with
      | none => simp [moveCall, scheduleCall, actionOf, caller]
      | some p => simp [moveCall, scheduleCall, actionOf, caller, modify_userStackPtr]

theorem stackPtrsAtCall_caller {action : Action} {ebp : Nat} (caller : machine.caller = some p)
    (frame : action.frame = some ebp) : (machine.stackPtrsAtCall action p).userStackPtr = ebp := by
  simp only [stackPtrsAtCall, frame, caller]
  rw [saveUser, update_self]

theorem stackPtrsAtCall_of_ne {action : Action} (other : machine.caller ≠ some p) :
    machine.stackPtrsAtCall action p = machine.kernel.stackPtrs p := by
  unfold stackPtrsAtCall
  cases action.frame with
  | none => rfl
  | some ebp =>
      cases caller : machine.caller with
      | none => rfl
      | some q =>
          have different : p ≠ q := fun same => other (same ▸ caller)
          dsimp only
          rw [saveUser, update_of_ne different]

theorem userStackPtr_switch {alloc : Allocator A} {next : Machine A} {action : Action}
    {kernel : Kernel A} (called : machine.scheduleCall action = some kernel)
    (taken : machine.step alloc action = some next) (p : Addr) :
    (next.kernel.pcb p).userStackPtr = (machine.stackPtrsAtCall action p).userStackPtr := by
  rcases step_switch called taken with ⟨_, stays⟩ | ⟨_, _, _, saved⟩
  · exact congrArg StackPtrs.userStackPtr (congrFun stays p)
  · apply (congrArg StackPtrs.userStackPtr (congrFun saved p)).trans
    cases machine.kernel.currentProcess with
    | none => rfl
    | some c =>
        by_cases same : p = c
        · rw [saveKernel, same, update_self]
        · rw [saveKernel, update_of_ne same]

end Machine

/-! ## One move -/

namespace Journal

def Waits (journal : Journal A) (p : Addr) : Prop :=
  journal.machine.kernel.InTable p ∧ MayWait (journal.machine.kernel.pcb p).state ∧
    (journal.machine.control.inCli = false → journal.machine.kernel.currentProcess ≠ some p)

section Record

variable {journal : Journal A} {move : Move} {next : Machine A} {kernel : Kernel A} {p : Addr}

theorem record_caller {ebp : Nat} (called : journal.machine.moveCall move = some kernel)
    (caller : journal.machine.caller = some p) (frame : move.frame = some ebp) :
    journal.record move next p = some ebp := by
  simp only [record, called, caller, frame]
  exact update_self ..

theorem record_of_ne (called : journal.machine.moveCall move = some kernel)
    (other : journal.machine.caller ≠ some p) : journal.record move next p = journal.frame p := by
  simp only [record, called]
  cases caller : journal.machine.caller with
  | none => rfl
  | some q =>
      cases move.frame with
      | none => rfl
      | some ebp =>
          have different : p ≠ q := fun same => other (same ▸ caller)
          exact update_of_ne different _ _

theorem record_calm (uncalled : journal.machine.moveCall move = none)
    (calm : Calm journal.machine next) (present : journal.machine.kernel.InTable p) :
    journal.record move next p = journal.frame p := by
  have other := calm.newborn_ne present
  simp only [record, uncalled]
  cases born : journal.machine.newborn next with
  | none => rfl
  | some q =>
      have different : p ≠ q := fun same => other (same ▸ born)
      exact update_of_ne different _ _

theorem record_newborn (uncalled : journal.machine.moveCall move = none)
    (made : next.control.born = p :: journal.machine.control.born) :
    journal.record move next p = none := by
  simp only [record, uncalled, Machine.newborn_of_cons made]
  exact update_self ..

end Record

end Journal

section Step

variable {alloc : IsolatingAllocator A} {journal next : Journal A} {move : Move}
  {kernel : Kernel A} {p : Addr}

theorem step_iff : (journalSystem alloc.toAllocator).step journal move = some next ↔
    journal.machine.step alloc.toAllocator (journal.machine.actionOf move) = some next.machine ∧
      next.frame = journal.record move next.machine := by
  have unfolded : (journalSystem alloc.toAllocator).step journal move =
      (journal.machine.step alloc.toAllocator (journal.machine.actionOf move)).map
        fun machine => ⟨machine, journal.record move machine⟩ := by
    rw [← Machine.move_eq_step]
    rfl
  rw [unfolded, Option.map_eq_some_iff]
  constructor
  · rintro ⟨machine, taken, same⟩
    rw [← same]
    exact ⟨taken, rfl⟩
  · rintro ⟨taken, frame⟩
    exact ⟨next.machine, taken, by rw [← frame]⟩

theorem caller_current (caller : journal.machine.caller = some p) :
    journal.machine.control.inCli = false ∧ journal.machine.kernel.currentProcess = some p := by
  simp only [Machine.caller, Control.caller] at caller
  split at caller
  · cases caller
  · rename_i inCli
    exact ⟨by simpa using inCli, (Option.filter_eq_some_iff.mp caller).1⟩

theorem Journal.Waits.not_caller (waits : journal.Waits p) : journal.machine.caller ≠ some p :=
  fun caller => waits.2.2 (caller_current caller).1 (caller_current caller).2

theorem strays_switch_iff (called : journal.machine.moveCall move = some kernel)
    (switch : Switch journal.machine (journal.machine.actionOf move) next.machine kernel)
    (taken : (journalSystem alloc.toAllocator).step journal move = some next)
    (inTable : next.machine.kernel.InTable p) (may : MayWait (next.machine.kernel.pcb p).state) :
    next.Strays p ↔
      (journal.Waits p ∧ journal.Strays p) ∨ Misfits ⟨journal, move, next⟩ p := by
  obtain ⟨step, record⟩ := step_iff.mp taken
  have call := called
  rw [Machine.moveCall_eq] at call
  have user := Machine.userStackPtr_switch call step p
  have may' := (switch.mayWait p).mp may
  by_cases caller : journal.machine.caller = some p
  · have moved : ¬ journal.Waits p := fun waits => waits.not_caller caller
    obtain ⟨inCli, current⟩ := caller_current caller
    have framed := (switch.byProcess p inCli current).2 may'
    cases move with
    | act action =>
        obtain ⟨ebp, frame⟩ := Option.isSome_iff_exists.mp framed
        rw [Machine.stackPtrsAtCall_caller caller frame] at user
        have recorded : next.frame p = some ebp := by
          rw [record]
          exact journal.record_caller called caller frame
        constructor
        · rintro ⟨frame', latest, other⟩
          rw [recorded, Option.some.injEq] at latest
          exact absurd (user.trans latest) other
        · rintro (⟨waits, _⟩ | ⟨_, _, _, clash, _⟩)
          · exact absurd waits moved
          · cases clash
    | schedule ebp esp =>
        have frame : (journal.machine.actionOf (.schedule ebp esp)).frame =
            some (journal.machine.kernel.pcb p).userStackPtr := by
          rw [Machine.actionOf, caller]
          rfl
        rw [Machine.stackPtrsAtCall_caller caller frame] at user
        have recorded : next.frame p = some ebp := by
          rw [record]
          exact journal.record_caller called caller rfl
        rw [Journal.Strays, recorded, user]
        constructor
        · rintro ⟨frame', latest, other⟩
          rw [Option.some.injEq] at latest
          exact Or.inr ⟨caller, ebp, esp, rfl, latest ▸ other⟩
        · rintro (⟨waits, _⟩ | ⟨_, ebp', esp', same, other⟩)
          · exact absurd waits moved
          · cases same
            exact ⟨ebp, rfl, other⟩
  · rw [Machine.stackPtrsAtCall_of_ne caller] at user
    have recorded : next.frame p = journal.frame p := by
      rw [record]
      exact journal.record_of_ne called caller
    have waits : journal.Waits p := by
      refine ⟨(switch.wasInTable p).mp ((switch.inTable p).mp inTable),
        switch.mayWait_before p may', ?_⟩
      exact fun inCli current => caller (switch.byProcess p inCli current).1
    rw [Journal.Strays, recorded, user]
    constructor
    · exact fun strays => Or.inl ⟨waits, strays⟩
    · rintro (⟨_, strays⟩ | ⟨clash, _⟩)
      · exact strays
      · exact absurd clash caller

theorem strays_calm_iff (uncalled : journal.machine.moveCall move = none)
    (calm : Calm journal.machine next.machine)
    (taken : (journalSystem alloc.toAllocator).step journal move = some next)
    (waits : next.Waits p) :
    next.Strays p ↔
      (journal.Waits p ∧ journal.Strays p) ∨ Misfits ⟨journal, move, next⟩ p := by
  obtain ⟨step, record⟩ := step_iff.mp taken
  obtain ⟨inTable, may, off⟩ := waits
  rw [calm.inCli, calm.current] at off
  have fits : ¬ Misfits ⟨journal, move, next⟩ p := by
    rintro ⟨caller, _, _, same, _⟩
    exact off (caller_current caller).1 (caller_current caller).2
  rw [or_iff_left fits]
  by_cases old : journal.machine.kernel.InTable p
  · rw [calm.state p old] at may
    have waits : journal.Waits p := ⟨old, may, off⟩
    obtain ⟨user, stackPtrs, kept⟩ := calm.stackPtrs p old
    have same := congrArg StackPtrs.userStackPtr stackPtrs
    have user_eq : (next.machine.kernel.pcb p).userStackPtr =
      (journal.machine.kernel.pcb p).userStackPtr := same.trans (kept waits.not_caller)
    have recorded : next.frame p = journal.frame p := by
      rw [record]
      exact journal.record_calm uncalled calm old
    rw [Journal.Strays, recorded, user_eq]
    exact ⟨fun strays => ⟨waits, strays⟩, fun both => both.2⟩
  · have recorded : next.frame p = none := by
      rw [record]
      exact journal.record_newborn uncalled (calm.enters p inTable old).1
    constructor
    · rintro ⟨frame, latest, _⟩
      rw [recorded] at latest
      cases latest
    · exact fun both => absurd both.1.1 old

def Journal.Stale (journal : Journal A) (p : Addr) : Prop := journal.Waits p ∧ journal.Strays p

theorem Journal.Waits.next_switch (waits : journal.Waits p)
    (switch : Switch journal.machine (journal.machine.actionOf move) next.machine kernel) :
    next.machine.kernel.InTable p ∧ MayWait (next.machine.kernel.pcb p).state := by
  have still := switch.stillMayWait p waits.not_caller waits.2.1
  exact ⟨(switch.inTable p).mpr ((switch.wasInTable p).mpr waits.1), (switch.mayWait p).mpr still⟩

theorem Misfits.next_switch (misfits : Misfits ⟨journal, move, next⟩ p)
    (invariant : MachineInvariant alloc journal.machine)
    (called : journal.machine.moveCall move = some kernel)
    (switch : Switch journal.machine (journal.machine.actionOf move) next.machine kernel) :
    next.machine.kernel.InTable p ∧ MayWait (next.machine.kernel.pcb p).state := by
  obtain ⟨caller, ebp, esp, schedules, _⟩ := misfits
  obtain ⟨spec, shows, orderly⟩ := invariant
  cases schedules
  obtain ⟨_, _, same⟩ := Option.map_eq_some_iff.mp called
  have callerHere : journal.machine.caller = some p := caller
  rw [shows.caller_eq] at callerHere
  obtain ⟨present, runs⟩ := orderly.caller_runs callerHere
  have inTable := (shows.refines.inTable_iff p).mpr present
  refine ⟨(switch.inTable p).mpr ((switch.wasInTable p).mpr inTable), (switch.mayWait p).mpr ?_⟩
  rw [← same, shows.refines.state_eq]
  exact Or.inr (Or.inr runs)

theorem Journal.Waits.next_calm (waits : journal.Waits p) (calm : Calm journal.machine next.machine) :
    next.Waits p := by
  obtain ⟨inTable, may, off⟩ := waits
  have remains : (journal.machine.kernel.pcb p).state ≠ .zombie := by
    rcases may with blocks | ready | runs
    · simp [blocks]
    · simp [ready]
    · simp [runs]
  refine ⟨calm.stays p inTable remains, ?_, ?_⟩
  · rw [calm.state p inTable]
    exact may
  · rw [calm.inCli, calm.current]
    exact off

theorem resumed_eq_some : resumed (⟨journal, move, next⟩ : Transition (Journal A) Move) = some p ↔
    (journal.machine.moveCall move).isSome = true ∧ next.machine.control.inCli = false ∧
      next.machine.kernel.currentProcess = some p := by
  simp only [resumed]
  cases journal.machine.moveCall move with
  | none => simp
  | some kernel => cases next.machine.control.inCli <;> simp

structure StaleStep (journal : Journal A) (move : Move) (next : Journal A) : Prop where
  resumes : ∀ p, resumed ⟨journal, move, next⟩ = some p →
    (next.Strays p ↔ journal.Stale p ∨ Misfits ⟨journal, move, next⟩ p) ∧ ¬ next.Stale p
  others : ∀ p, resumed ⟨journal, move, next⟩ ≠ some p →
    (next.Stale p ↔ journal.Stale p ∨ Misfits ⟨journal, move, next⟩ p)

theorem staleStep (invariant : MachineInvariant alloc journal.machine)
    (taken : (journalSystem alloc.toAllocator).step journal move = some next) :
    StaleStep journal move next := by
  obtain ⟨step, _⟩ := step_iff.mp taken
  obtain ⟨spec', shows', orderly'⟩ := machineInvariant_step alloc invariant step
  obtain ⟨spec, shows, orderly⟩ := id invariant
  rcases shows.switch_or_calm orderly step with ⟨kernel, called, switch⟩ | ⟨uncalled, calm⟩
  · rw [← Machine.moveCall_eq] at called
    constructor
    · intro p dispatched
      obtain ⟨_, inCli, current⟩ := resumed_eq_some.mp dispatched
      have present := shows'.control ▸ inCli
      obtain ⟨inTable, runs⟩ := orderly'.current_runs present (shows'.refines.current ▸ current)
      rw [← shows'.refines.state_eq] at runs
      refine ⟨strays_switch_iff called switch taken ((shows'.refines.inTable_iff p).mpr inTable)
        (Or.inr (Or.inr runs)), ?_⟩
      exact fun stale => stale.1.2.2 inCli current
    · intro p elsewhere
      have off : next.machine.control.inCli = false →
          next.machine.kernel.currentProcess ≠ some p := by
        intro inCli current
        exact elsewhere (resumed_eq_some.mpr ⟨Option.isSome_of_eq_some called, inCli, current⟩)
      constructor
      · intro stale
        exact (strays_switch_iff called switch taken stale.1.1 stale.1.2.1).mp stale.2
      · intro either
        have back : next.machine.kernel.InTable p ∧ MayWait (next.machine.kernel.pcb p).state := by
          rcases either with stale | misfits
          · exact stale.1.next_switch switch
          · exact misfits.next_switch invariant called switch
        exact ⟨⟨back.1, back.2, off⟩, (strays_switch_iff called switch taken back.1 back.2).mpr either⟩
  · rw [← Machine.moveCall_eq] at uncalled
    constructor
    · intro p dispatched
      have called := (resumed_eq_some.mp dispatched).1
      rw [uncalled] at called
      cases called
    · intro p _
      constructor
      · exact fun stale => (strays_calm_iff uncalled calm taken stale.1).mp stale.2
      · intro either
        rcases either with stale | ⟨caller, ebp, esp, same, _⟩
        · have waits := stale.1.next_calm calm
          exact ⟨waits, (strays_calm_iff uncalled calm taken waits).mpr (Or.inl stale)⟩
        · cases same
          rw [Machine.moveCall, Option.map_eq_none_iff] at uncalled
          cases uncalled.symm.trans caller

end Step

/-! ## Runs -/

/-- No process that has called `schedule` without the frame of that call in
`user_stack_ptr` is dispatched again. -/
def MisfitsStayAway (trace : List (Transition (Journal A) Move)) : Prop :=
  (∀ transition ∈ trace, ∀ p, Misfits transition p → resumed transition ≠ some p) ∧
    trace.Pairwise fun transition later => ∀ p, Misfits transition p → resumed later ≠ some p

theorem misfitsStayAway_cons {transition : Transition (Journal A) Move}
    {rest : List (Transition (Journal A) Move)} : MisfitsStayAway (transition :: rest) ↔
      (∀ p, Misfits transition p → ∀ later ∈ transition :: rest, resumed later ≠ some p) ∧
        MisfitsStayAway rest := by
  simp only [MisfitsStayAway, List.pairwise_cons, List.forall_mem_cons]
  constructor
  · rintro ⟨⟨here, misfits⟩, after, pairs⟩
    exact ⟨fun p fits => ⟨here p fits, fun later member => after later member p fits⟩, misfits, pairs⟩
  · rintro ⟨away, misfits, pairs⟩
    exact ⟨⟨fun p fits => (away p fits).1, misfits⟩,
      fun later member p fits => (away p fits).2 later member, pairs⟩

theorem resumesWhereStopped_iff {transition : Transition (Journal A) Move} :
    ResumesWhereStopped transition ↔
      ∀ p, resumed transition = some p → ¬ transition.after.Strays p := by
  constructor
  · rintro resumes p dispatched ⟨frame, latest, other⟩
    exact other (resumes p frame dispatched latest)
  · intro straight p frame dispatched latest
    by_contra other
    exact straight p dispatched ⟨frame, latest, other⟩

/-- Every process of a run goes on from the frame of its latest suspension exactly if those
who will stray, and those who come to stray, are not dispatched again. -/
theorem resumes_run_iff {alloc : IsolatingAllocator A} {first last : Journal A}
    {trace : List (Transition (Journal A) Move)}
    (run : (journalSystem alloc.toAllocator).Trace first trace last)
    (invariant : MachineInvariant alloc first.machine) :
    (∀ transition ∈ trace, ResumesWhereStopped transition) ↔
      (∀ p, first.Stale p → ∀ transition ∈ trace, resumed transition ≠ some p) ∧
        MisfitsStayAway trace := by
  induction run with
  | nil journal => simp [MisfitsStayAway]
  | @cons journal next last move rest taken _ ih =>
      obtain ⟨step, _⟩ := step_iff.mp taken
      have stale := staleStep invariant taken
      rw [List.forall_mem_cons, ih (machineInvariant_step alloc invariant step),
        resumesWhereStopped_iff, misfitsStayAway_cons]
      constructor
      · rintro ⟨here, stays, away⟩
        have avoided : ∀ p, journal.Stale p ∨ Misfits ⟨journal, move, next⟩ p →
            ∀ later ∈ ⟨journal, move, next⟩ :: rest, resumed later ≠ some p := by
          intro p either
          have elsewhere : resumed ⟨journal, move, next⟩ ≠ some p :=
            fun dispatched => here p dispatched (((stale.resumes p dispatched).1).mpr either)
          rw [List.forall_mem_cons]
          exact ⟨elsewhere, stays p ((stale.others p elsewhere).mpr either)⟩
        exact ⟨fun p before => avoided p (Or.inl before),
          fun p misfits => avoided p (Or.inr misfits), away⟩
      · rintro ⟨before, misfits, away⟩
        have avoided : ∀ p, journal.Stale p ∨ Misfits ⟨journal, move, next⟩ p →
            ∀ later ∈ ⟨journal, move, next⟩ :: rest, resumed later ≠ some p :=
          fun p either => either.elim (before p) (misfits p)
        refine ⟨?_, ?_, away⟩
        · intro p dispatched strays
          have either := ((stale.resumes p dispatched).1).mp strays
          exact avoided p either _ List.mem_cons_self dispatched
        · intro p after later member
          have elsewhere : resumed ⟨journal, move, next⟩ ≠ some p :=
            fun dispatched => (stale.resumes p dispatched).2 after
          exact avoided p ((stale.others p elsewhere).mp after) later
            (List.mem_cons_of_mem _ member)

/-- In every run each process that is dispatched after a suspension goes on from the frame
of the latest one, exactly if nobody comes back who has called `schedule` directly without
that frame in `user_stack_ptr`. -/
theorem resumes_where_stopped_iff (alloc : IsolatingAllocator A) {first last : Journal A}
    {trace : List (Transition (Journal A) Move)}
    (initial : (journalSystem alloc.toAllocator).initial first)
    (run : (journalSystem alloc.toAllocator).Trace first trace last) :
    (∀ transition ∈ trace, ResumesWhereStopped transition) ↔ MisfitsStayAway trace := by
  obtain ⟨start, unsuspended⟩ := initial
  rw [resumes_run_iff run (machineInvariant_initial alloc start), and_iff_right]
  rintro p ⟨_, frame, latest, _⟩
  rw [unsuspended] at latest
  cases latest

def bootJournal : Journal Memory.Heap := ⟨bootMachine, fun _ => none⟩

theorem bootJournal_initial {alloc : Allocator Memory.Heap} :
    (journalSystem alloc).initial bootJournal := ⟨bootMachine_initial, rfl⟩

theorem resumes_where_stopped_iff_at_yields : ∃ trace last,
    (journalSystem heapAllocator.toAllocator).record bootJournal
      [.act (.createProcess 0 1 1 2), .act (.start 0), .act (.createProcess 0 1 2 3),
        .act (.yield 8176 0), .act (.yield 0 0)] = some (trace, last) ∧
    ((∀ transition ∈ trace, ResumesWhereStopped transition) ↔ MisfitsStayAway trace) := by
  have runs : ((journalSystem heapAllocator.toAllocator).record bootJournal
      [.act (.createProcess 0 1 1 2), .act (.start 0), .act (.createProcess 0 1 2 3),
        .act (.yield 8176 0), .act (.yield 0 0)]).isSome := by
    decide +kernel
  obtain ⟨⟨trace, last⟩, recorded⟩ := Option.isSome_iff_exists.mp runs
  exact ⟨trace, last, recorded, resumes_where_stopped_iff heapAllocator bootJournal_initial
    (System.trace_of_record recorded)⟩

/-- As `process_test` does, a process creates another one and calls `schedule`.  When the other
yields, the pointer that `create_process` stored is loaded and not the frame of that call. -/
theorem direct_schedule_loads_old_pointer : ¬ ∀ first trace last,
    (journalSystem heapAllocator.toAllocator).initial first →
      (journalSystem heapAllocator.toAllocator).Trace first trace last →
        ∀ transition ∈ trace, ResumesWhereStopped transition := by
  intro always
  have runs : ((journalSystem heapAllocator.toAllocator).record bootJournal
      [.act (.createProcess 0 1 1 2), .act (.start 0), .act (.createProcess 0 1 2 3),
        .schedule 8176 0, .act (.yield 0 0)]).any fun run =>
          run.1.any fun transition => decide (resumed transition = some 8 ∧
            transition.after.frame 8 = some 8176 ∧
            (transition.after.machine.kernel.pcb 8).userStackPtr = 8192) := by
    decide +kernel
  obtain ⟨⟨trace, last⟩, recorded, found⟩ := (Option.any_eq_true ..).mp runs
  obtain ⟨transition, member, checked⟩ := List.any_eq_true.mp found
  obtain ⟨dispatched, latest, loaded⟩ := of_decide_eq_true checked
  have goesOn := always bootJournal trace last bootJournal_initial
    (System.trace_of_record recorded) transition member 8 8176 dispatched latest
  rw [loaded] at goesOn
  exact absurd goesOn (by decide)

end ApnaOS.Process
