import ApnaOS.Process.Processes

/-!
# The model stays sound

What holds between the lists of the model and the states of its processes, and that
every operation keeps it.
-/

set_option autoImplicit false

namespace ApnaOS.Process

open ApnaOS.Lib
open Function (update update_self update_of_ne)

def Awake (state : ProcessState) : Prop := state = .ready ∨ state = .running

namespace Processes

/-! ## Fields -/

section Fields

variable (processes : Processes) (p a : Addr) (change : Proc → Proc) (state : ProcessState)

theorem proc_modify : (processes.modify p change).proc a =
    if a = p then change (processes.proc a) else processes.proc a := by
  by_cases same : a = p
  · simp [modify, same]
  · simp [modify, same]

theorem state_modify {change : Proc → Proc} (keeps : ∀ proc, (change proc).state = proc.state) :
    (processes.modify p change).state a = processes.state a := by
  rw [Processes.state, proc_modify]
  split
  · exact keeps _
  · rfl

theorem state_setState : (processes.setState p state).state a =
    if a = p then state else processes.state a := by
  by_cases same : a = p
  · simp [Processes.state, setState, proc_modify, same]
  · simp [Processes.state, setState, proc_modify, same]

theorem state_setState_iff {state' : ProcessState} : (processes.setState p state).state a = state' ↔
    (a = p ∧ state = state') ∨ (a ≠ p ∧ processes.state a = state') := by
  rw [state_setState]
  by_cases same : a = p
  · simp [same]
  · simp [same]

theorem proc_setState_of_ne (different : a ≠ p) :
    (processes.setState p state).proc a = processes.proc a := by
  rw [setState, proc_modify, if_neg different]

theorem parent_setState : (processes.setState p state).parent a = processes.parent a := by
  rw [parent, setState, proc_modify]
  split <;> rfl

theorem modify_modify (change' : Proc → Proc) :
    (processes.modify p change).modify p change' =
      processes.modify p fun proc => change' (change proc) := by
  simp [modify]

@[simp] theorem ready_modify : (processes.modify p change).ready = processes.ready := rfl
@[simp] theorem table_modify : (processes.modify p change).table = processes.table := rfl
@[simp] theorem current_modify : (processes.modify p change).current = processes.current := rfl
@[simp] theorem ready_setState : (processes.setState p state).ready = processes.ready := rfl
@[simp] theorem table_setState : (processes.setState p state).table = processes.table := rfl
@[simp] theorem current_setState : (processes.setState p state).current = processes.current := rfl
@[simp] theorem table_enqueue : (processes.enqueue p).table = processes.table := rfl
@[simp] theorem current_enqueue : (processes.enqueue p).current = processes.current := rfl
@[simp] theorem proc_enqueue : (processes.enqueue p).proc a = processes.proc a := rfl
@[simp] theorem state_enqueue : (processes.enqueue p).state a = processes.state a := rfl

theorem mem_ready_enqueue : a ∈ (processes.enqueue p).ready ↔ a = p ∨ a ∈ processes.ready :=
  mem_insertByKey _ _ _

end Fields

section NewProcesses

variable (processes : Processes) (p a : Addr)

theorem proc_enter : (processes.enter p).proc a =
    if a = p then { processes.proc a with state := .ready } else processes.proc a := by
  by_cases same : a = p
  · simp [enter, enroll, enqueue, setState, modify, same]
  · simp [enter, enroll, enqueue, setState, modify, same]

theorem proc_create (priority : Int) : (processes.create p priority).proc a =
    if a = p then
      { processes.proc a with
        pid := processes.nextPid % wordRange, priority := priority, state := .ready }
    else processes.proc a := by
  rw [create, proc_enter, proc_modify]
  split <;> rfl

theorem proc_forkChild (child : Addr) : (processes.forkChild p child).proc a =
    if a = child then
      { processes.proc a with
        pid := processes.nextPid % wordRange, parent := some p,
        priority := (processes.proc p).priority }
    else processes.proc a := by
  rw [forkChild, proc_modify]
  split <;> rfl

theorem proc_fork (child : Addr) : (processes.fork p child).proc a =
    if a = child then
      { processes.proc a with
        pid := processes.nextPid % wordRange, parent := some p,
        priority := (processes.proc p).priority, state := .ready }
    else processes.proc a := by
  rw [fork, proc_enter, proc_forkChild]
  split <;> rfl

theorem proc_die (status : Int) : (processes.die p status).proc a =
    if a = p then { processes.proc a with exitStatus := status, state := .zombie }
    else processes.proc a := by
  rw [die, setExitStatus, setState, modify_modify, proc_modify]

end NewProcesses

/-! ## What an operation can do -/

theorem preempt_cases (processes : Processes) :
    (processes.preempt = processes ∧
      ∀ p, processes.current = some p → processes.state p ≠ .running) ∨
    ∃ p, processes.current = some p ∧ processes.state p = .running ∧
      processes.preempt = (processes.setState p .ready).enqueue p := by
  rw [preempt]
  cases current : processes.current with
  | none => exact Or.inl ⟨rfl, by simp⟩
  | some p =>
      by_cases runs : processes.state p = .running
      · exact Or.inr ⟨p, rfl, runs, if_pos runs⟩
      · refine Or.inl ⟨if_neg runs, ?_⟩
        intro q same
        rw [← Option.some.inj same]
        exact runs

theorem dispatch_cases (processes : Processes) :
    (processes.ready = [] ∧ processes.dispatch = (none, processes)) ∨
    ∃ p rest, processes.ready = p :: rest ∧ processes.dispatch =
      (some p, { processes.setState p .running with ready := rest, current := some p }) := by
  rw [dispatch]
  cases processes.ready with
  | nil => exact Or.inl ⟨rfl, rfl⟩
  | cons p rest => exact Or.inr ⟨p, rest, rfl, rfl⟩

theorem wakeParent_cases (processes : Processes) (p : Addr) :
    (processes.wakeParent p = processes ∧
      ∀ q, processes.parent p = some q → processes.state q ≠ .blocked) ∨
    ∃ q, processes.parent p = some q ∧ processes.state q = .blocked ∧
      processes.wakeParent p = (processes.setState q .ready).enqueue q := by
  rw [wakeParent]
  cases processes.parent p with
  | none => exact Or.inl ⟨rfl, by simp⟩
  | some q =>
      by_cases blocks : processes.state q = .blocked
      · exact Or.inr ⟨q, rfl, blocks, if_pos blocks⟩
      · refine Or.inl ⟨if_neg blocks, ?_⟩
        intro q' same
        rw [← Option.some.inj same]
        exact blocks

@[simp] theorem table_schedule (processes : Processes) :
    processes.schedule.2.table = processes.table := by
  have kept : processes.preempt.table = processes.table := by
    rcases processes.preempt_cases with ⟨same, _⟩ | ⟨p, _, _, queued⟩
    · rw [same]
    · rw [queued, table_enqueue, table_setState]
  rw [schedule]
  rcases processes.preempt.dispatch_cases with ⟨_, same⟩ | ⟨p, rest, _, given⟩
  · rw [same, kept]
  · rw [given]
    exact kept

@[simp] theorem table_wakeParent (processes : Processes) (p : Addr) :
    (processes.wakeParent p).table = processes.table := by
  rcases processes.wakeParent_cases p with ⟨same, _⟩ | ⟨q, _, _, woken⟩
  · rw [same]
  · rw [woken, table_enqueue, table_setState]

theorem proc_wakeParent (processes : Processes) (p a : Addr) :
    ((processes.wakeParent p).proc a = processes.proc a ∧
      (processes.parent p = some a → processes.state a ≠ .blocked)) ∨
    (processes.parent p = some a ∧ processes.state a = .blocked ∧
      (processes.wakeParent p).proc a = { processes.proc a with state := .ready }) := by
  rcases processes.wakeParent_cases p with ⟨same, rests⟩ | ⟨q, parent, blocks, woken⟩
  · rw [same]
    exact Or.inl ⟨rfl, rests a⟩
  · rw [woken, proc_enqueue, setState, proc_modify]
    by_cases equal : a = q
    · rw [equal]
      exact Or.inr ⟨parent, blocks, if_pos rfl⟩
    · refine Or.inl ⟨if_neg equal, ?_⟩
      intro same
      exact absurd (Option.some.inj (same.symm.trans parent)) equal

theorem proc_exit_self (processes : Processes) (p : Addr) (status : Int) :
    (processes.exit p status).proc p =
      { processes.proc p with exitStatus := status, state := .zombie } := by
  have dead := proc_die processes p p status
  rw [if_pos rfl] at dead
  rcases proc_wakeParent (processes.die p status) p p with ⟨same, _⟩ | ⟨_, blocks, _⟩
  · exact same.trans dead
  · rw [state, dead] at blocks
    cases blocks

theorem proc_exit_of_ne (processes : Processes) {p a : Addr} (different : a ≠ p) (status : Int) :
    ((processes.exit p status).proc a = processes.proc a ∧
      (processes.parent p = some a → processes.state a ≠ .blocked)) ∨
    (processes.parent p = some a ∧ processes.state a = .blocked ∧
      (processes.exit p status).proc a = { processes.proc a with state := .ready }) := by
  have other := proc_die processes p a status
  have parent : (processes.die p status).parent p = processes.parent p := by
    rw [Processes.parent, proc_die]
    split <;> rfl
  rw [if_neg different] at other
  have woken := proc_wakeParent (processes.die p status) p a
  rw [state, other, parent] at woken
  exact woken

@[simp] theorem table_exit (processes : Processes) (p : Addr) (status : Int) :
    (processes.exit p status).table = processes.table := table_wakeParent _ _

section Exit

variable (processes : Processes) (p a : Addr) (status : Int)

theorem nextPid_exit : (processes.exit p status).nextPid = processes.nextPid := by
  rw [exit]
  rcases (processes.die p status).wakeParent_cases p with ⟨same, _⟩ | ⟨q, _, _, woken⟩
  · rw [same]
    rfl
  · rw [woken]
    rfl

theorem pid_exit : ((processes.exit p status).proc a).pid = (processes.proc a).pid := by
  by_cases same : a = p
  · rw [same, proc_exit_self]
  · rcases processes.proc_exit_of_ne same status with ⟨kept, _⟩ | ⟨_, _, woken⟩
    · rw [kept]
    · rw [woken]

theorem parent_exit : (processes.exit p status).parent a = processes.parent a := by
  rw [parent]
  by_cases same : a = p
  · rw [same, proc_exit_self]
    rfl
  · rcases processes.proc_exit_of_ne same status with ⟨kept, _⟩ | ⟨_, _, woken⟩
    · rw [kept]
      rfl
    · rw [woken]
      rfl

theorem state_exit_zombie_iff :
    (processes.exit p status).state a = .zombie ↔ a = p ∨ processes.state a = .zombie := by
  rw [state]
  by_cases same : a = p
  · rw [same, proc_exit_self]
    simp
  · rcases processes.proc_exit_of_ne same status with ⟨kept, _⟩ | ⟨_, blocks, woken⟩
    · rw [kept]
      simp [same, state]
    · rw [woken]
      simp [same, blocks]

theorem state_exit_blocked_iff : (processes.exit p status).state a = .blocked ↔
    a ≠ p ∧ processes.state a = .blocked ∧ processes.parent p ≠ some a := by
  rw [state]
  by_cases same : a = p
  · rw [same, proc_exit_self]
    simp
  · rcases processes.proc_exit_of_ne same status with ⟨kept, rests⟩ | ⟨parent, blocks, woken⟩
    · rw [kept]
      constructor
      · intro blocks
        exact ⟨same, blocks, fun parent => rests parent blocks⟩
      · rintro ⟨_, blocks, _⟩
        exact blocks
    · rw [woken]
      simp [parent]

theorem exitStatus_exit_of_ne (different : a ≠ p) :
    ((processes.exit p status).proc a).exitStatus = (processes.proc a).exitStatus := by
  rcases processes.proc_exit_of_ne different status with ⟨kept, _⟩ | ⟨_, _, woken⟩
  · rw [kept]
  · rw [woken]

end Exit

/-! ## Soundness -/

structure Sound (processes : Processes) : Prop where
  ready_nodup : processes.ready.Nodup
  table_nodup : processes.table.Nodup
  ready_iff : ∀ p, p ∈ processes.ready ↔ p ∈ processes.table ∧ processes.state p = .ready
  running : ∀ p ∈ processes.table, processes.state p = .running → processes.current = some p
  blocked : ∀ p, processes.state p = .blocked → p ∈ processes.table
  current : ∀ p, processes.current = some p → p ∈ processes.table

namespace Sound

variable {processes : Processes} {p : Addr}

theorem length_ready (sound : Sound processes) :
    processes.ready.length ≤ processes.table.length := by
  refine (List.subperm_of_subset sound.ready_nodup ?_).length_le
  intro p member
  exact ((sound.ready_iff p).mp member).1

theorem not_ready (sound : Sound processes) (other : processes.state p ≠ .ready) :
    p ∉ processes.ready := fun member => other ((sound.ready_iff p).mp member).2

theorem modify (sound : Sound processes) (p : Addr) (change : Proc → Proc)
    (keeps : ∀ proc, (change proc).state = proc.state) : Sound (processes.modify p change) := by
  have same : ∀ q, (processes.modify p change).state q = processes.state q :=
    fun q => state_modify processes p q keeps
  refine ⟨sound.ready_nodup, sound.table_nodup, ?_, ?_, ?_, sound.current⟩
  · intro q
    rw [same]
    exact sound.ready_iff q
  · intro q member runs
    rw [same] at runs
    exact sound.running q member runs
  · intro q blocks
    rw [same] at blocks
    exact sound.blocked q blocks

theorem write (sound : Sound processes) (fresh : p ∉ processes.table) (change : Proc → Proc)
    (awake : (change (processes.proc p)).state ≠ .blocked) :
    Sound (processes.modify p change) := by
  have same : ∀ q ∈ processes.table, (processes.modify p change).state q = processes.state q := by
    intro q present
    have different : q ≠ p := fun same => fresh (same ▸ present)
    rw [Processes.state, proc_modify, if_neg different, Processes.state]
  refine ⟨sound.ready_nodup, sound.table_nodup, ?_, ?_, ?_, sound.current⟩
  · intro q
    rw [ready_modify, table_modify, sound.ready_iff]
    exact and_congr_right fun present => by rw [same q present]
  · intro q present runs
    rw [same q present] at runs
    exact sound.running q present runs
  · intro q blocks
    rw [Processes.state, proc_modify] at blocks
    split at blocks
    · next equal =>
        subst equal
        exact absurd blocks awake
    · exact sound.blocked q blocks

theorem setState (sound : Sound processes) (present : p ∈ processes.table)
    (other : processes.state p ≠ .ready) (state : ProcessState) (stays : state ≠ .ready)
    (rests : state ≠ .running) : Sound (processes.setState p state) := by
  refine ⟨sound.ready_nodup, sound.table_nodup, ?_, ?_, ?_, sound.current⟩
  · intro q
    rw [ready_setState, table_setState, state_setState_iff, sound.ready_iff]
    constructor
    · intro ready
      have different : q ≠ p := fun same => other (same ▸ ready.2)
      exact ⟨ready.1, Or.inr ⟨different, ready.2⟩⟩
    · intro ready
      rcases ready.2 with ⟨_, clash⟩ | ⟨_, old⟩
      · exact absurd clash stays
      · exact ⟨ready.1, old⟩
  · intro q member runs
    rcases (state_setState_iff ..).mp runs with ⟨_, clash⟩ | ⟨_, old⟩
    · exact absurd clash rests
    · exact sound.running q member old
  · intro q blocks
    rcases (state_setState_iff ..).mp blocks with ⟨same, _⟩ | ⟨_, old⟩
    · rw [same]
      exact present
    · exact sound.blocked q old

theorem block (sound : Sound processes) (present : p ∈ processes.table)
    (runs : processes.state p = .running) : Sound (processes.setState p .blocked) :=
  sound.setState present (by simp [runs]) .blocked (by decide) (by decide)

theorem stop (sound : Sound processes) (present : p ∈ processes.table)
    (runs : processes.state p = .running) : Sound (processes.setState p .exit) :=
  sound.setState present (by simp [runs]) .exit (by decide) (by decide)

theorem makeReady (sound : Sound processes) (present : p ∈ processes.table)
    (other : processes.state p ≠ .ready) :
    Sound ((processes.setState p .ready).enqueue p) := by
  refine ⟨?_, sound.table_nodup, ?_, ?_, ?_, sound.current⟩
  · exact (insertByKey_perm _ _ _).nodup_iff.mpr
      (List.nodup_cons.mpr ⟨sound.not_ready other, sound.ready_nodup⟩)
  · intro q
    rw [mem_ready_enqueue, ready_setState, table_enqueue, table_setState, state_enqueue,
      state_setState_iff, sound.ready_iff]
    constructor
    · intro ready
      rcases ready with same | old
      · rw [same]
        exact ⟨present, Or.inl ⟨rfl, rfl⟩⟩
      · have different : q ≠ p := fun same => other (same ▸ old.2)
        exact ⟨old.1, Or.inr ⟨different, old.2⟩⟩
    · intro ready
      rcases ready.2 with ⟨same, _⟩ | ⟨_, old⟩
      · exact Or.inl same
      · exact Or.inr ⟨ready.1, old⟩
  · intro q member runs
    rcases (state_setState_iff ..).mp runs with ⟨_, clash⟩ | ⟨_, old⟩
    · cases clash
    · exact sound.running q member old
  · intro q blocks
    rcases (state_setState_iff ..).mp blocks with ⟨_, clash⟩ | ⟨_, old⟩
    · cases clash
    · exact sound.blocked q old

theorem preempt (sound : Sound processes) : Sound processes.preempt := by
  rcases processes.preempt_cases with ⟨same, _⟩ | ⟨p, current, runs, queued⟩
  · rw [same]
    exact sound
  · rw [queued]
    exact sound.makeReady (sound.current p current) (by simp [runs])

theorem preempt_rests (sound : Sound processes) :
    ∀ q ∈ processes.preempt.table, processes.preempt.state q ≠ .running := by
  intro q member runs
  rcases processes.preempt_cases with ⟨same, rests⟩ | ⟨p, current, _, queued⟩
  · rw [same] at member runs
    exact rests q (sound.running q member runs) runs
  · rw [queued] at member runs
    rcases (state_setState_iff ..).mp runs with ⟨_, clash⟩ | ⟨different, old⟩
    · cases clash
    · exact different (Option.some.inj ((sound.running q member old).symm.trans current))

theorem dispatch (sound : Sound processes)
    (rests : ∀ q ∈ processes.table, processes.state q ≠ .running) :
    Sound processes.dispatch.2 := by
  rcases processes.dispatch_cases with ⟨_, same⟩ | ⟨p, rest, queue, given⟩
  · rw [same]
    exact sound
  · rw [given]
    have nodup := sound.ready_nodup
    rw [queue, List.nodup_cons] at nodup
    have first := (sound.ready_iff p).mp (queue ▸ List.mem_cons_self)
    refine ⟨nodup.2, sound.table_nodup, ?_, ?_, ?_, ?_⟩
    · intro q
      have ready := sound.ready_iff q
      rw [queue, List.mem_cons] at ready
      constructor
      · intro member
        have different : q ≠ p := fun same => nodup.1 (same ▸ member)
        have old := ready.mp (Or.inr member)
        exact ⟨old.1, (state_setState_iff ..).mpr (Or.inr ⟨different, old.2⟩)⟩
      · intro waits
        rcases (state_setState_iff ..).mp waits.2 with ⟨_, clash⟩ | ⟨different, old⟩
        · cases clash
        · exact (ready.mpr ⟨waits.1, old⟩).resolve_left different
    · intro q member runs
      rcases (state_setState_iff ..).mp runs with ⟨same, _⟩ | ⟨_, old⟩
      · rw [same]
      · exact absurd old (rests q member)
    · intro q blocks
      rcases (state_setState_iff ..).mp blocks with ⟨_, clash⟩ | ⟨_, old⟩
      · cases clash
      · exact sound.blocked q old
    · intro q same
      cases same
      exact first.1

theorem schedule (sound : Sound processes) : Sound processes.schedule.2 :=
  sound.preempt.dispatch sound.preempt_rests

theorem wakeParent (sound : Sound processes) : Sound (processes.wakeParent p) := by
  rcases processes.wakeParent_cases p with ⟨same, _⟩ | ⟨q, _, blocks, woken⟩
  · rw [same]
    exact sound
  · rw [woken]
    exact sound.makeReady (sound.blocked q blocks) (by simp [blocks])

theorem die (sound : Sound processes) (present : p ∈ processes.table)
    (runs : processes.state p = .running) (status : Int) : Sound (processes.die p status) := by
  have recorded : Sound (processes.setExitStatus p status) := sound.modify p _ (by intro proc; rfl)
  have runs' : (processes.setExitStatus p status).state p = .running :=
    (state_modify processes p p (by intro proc; rfl)).trans runs
  exact recorded.setState present (by simp [runs']) .zombie (by decide) (by decide)

theorem exit (sound : Sound processes) (present : p ∈ processes.table)
    (runs : processes.state p = .running) (status : Int) : Sound (processes.exit p status) :=
  (sound.die present runs status).wakeParent

theorem proc_exit_outside (sound : Sound processes) (present : p ∈ processes.table) {a : Addr}
    (absent : a ∉ processes.table) (status : Int) :
    (processes.exit p status).proc a = processes.proc a := by
  have different : a ≠ p := fun same => absent (same ▸ present)
  rcases processes.proc_exit_of_ne different status with ⟨same, _⟩ | ⟨_, blocks, _⟩
  · exact same
  · exact absurd (sound.blocked a blocks) absent

theorem enroll (sound : Sound processes) (fresh : p ∉ processes.table) :
    Sound (processes.enroll p) := by
  refine ⟨sound.ready_nodup, List.nodup_cons.mpr ⟨fresh, sound.table_nodup⟩, ?_, ?_, ?_, ?_⟩
  · intro q
    have ready := sound.ready_iff q
    constructor
    · intro member
      have old := ready.mp member
      have different : q ≠ p := fun same => fresh (same ▸ old.1)
      exact ⟨List.mem_cons_of_mem p old.1, (state_setState_iff ..).mpr (Or.inr ⟨different, old.2⟩)⟩
    · intro waits
      rcases (state_setState_iff ..).mp waits.2 with ⟨_, clash⟩ | ⟨different, old⟩
      · cases clash
      · exact ready.mpr ⟨(List.mem_cons.mp waits.1).resolve_left different, old⟩
  · intro q member runs
    rcases (state_setState_iff ..).mp runs with ⟨_, clash⟩ | ⟨different, old⟩
    · cases clash
    · exact sound.running q ((List.mem_cons.mp member).resolve_left different) old
  · intro q blocks
    rcases (state_setState_iff ..).mp blocks with ⟨_, clash⟩ | ⟨_, old⟩
    · cases clash
    · exact List.mem_cons_of_mem p (sound.blocked q old)
  · intro q current
    exact List.mem_cons_of_mem p (sound.current q current)

theorem enter (sound : Sound processes) (fresh : p ∉ processes.table) :
    Sound (processes.enter p) := by
  apply (sound.enroll fresh).makeReady List.mem_cons_self
  rw [Processes.enroll, state_setState, if_pos rfl]
  decide

theorem countPid (sound : Sound processes) : Sound processes.countPid :=
  ⟨sound.ready_nodup, sound.table_nodup, sound.ready_iff, sound.running, sound.blocked,
    sound.current⟩

theorem create (sound : Sound processes) (fresh : p ∉ processes.table) (priority : Int) :
    Sound (processes.create p priority) :=
  (sound.countPid.modify p _ (by intro proc; rfl)).enter fresh

theorem forkChild (sound : Sound processes) (p child : Addr) :
    Sound (processes.forkChild p child) := sound.countPid.modify child _ (by intro proc; rfl)

theorem fork (sound : Sound processes) {child : Addr} (fresh : child ∉ processes.table) :
    Sound (processes.fork p child) := (sound.forkChild p child).enter fresh

theorem unlink (sound : Sound processes) {child : Addr} (zombie : processes.state child = .zombie)
    (elsewhere : processes.current ≠ some child) : Sound (processes.unlink child) := by
  have kept : ∀ q, q ≠ child → (q ∈ (processes.unlink child).table ↔ q ∈ processes.table) := by
    intro q different
    exact sound.table_nodup.mem_erase_iff.trans (and_iff_right different)
  have not_child : ∀ q state, processes.state q = state → state ≠ .zombie → q ≠ child := by
    intro q state has other same
    exact other (has.symm.trans (same ▸ zombie))
  refine ⟨sound.ready_nodup, sound.table_nodup.erase child, ?_, ?_, ?_, ?_⟩
  · intro q
    constructor
    · intro member
      have old := (sound.ready_iff q).mp member
      exact ⟨(kept q (not_child q _ old.2 (by decide))).mpr old.1, old.2⟩
    · intro waits
      exact (sound.ready_iff q).mpr ⟨List.mem_of_mem_erase waits.1, waits.2⟩
  · intro q member runs
    exact sound.running q (List.mem_of_mem_erase member) runs
  · intro q blocks
    exact (kept q (not_child q _ blocks (by decide))).mpr (sound.blocked q blocks)
  · intro q current
    have different : q ≠ child := fun same => elsewhere (same ▸ current)
    exact (kept q different).mpr (sound.current q current)

end Sound

/-! ## Taking turns -/

/-- `after` differs from `before` at most in whose turn it is. -/
structure SameButTurns (before after : Processes) : Prop where
  table : after.table = before.table
  nextPid : after.nextPid = before.nextPid
  pidAtNull : after.pidAtNull = before.pidAtNull
  proc : ∀ a, ∃ state, after.proc a = { before.proc a with state := state } ∧
    (state = before.state a ∨ (Awake state ∧ Awake (before.state a)))
  outside : ∀ a, a ∉ before.table → after.proc a = before.proc a

namespace SameButTurns

variable {before middle after : Processes}

theorem refl (processes : Processes) : SameButTurns processes processes :=
  ⟨rfl, rfl, rfl, fun a => ⟨processes.state a, rfl, Or.inl rfl⟩, fun _ _ => rfl⟩

theorem trans (first : SameButTurns before middle) (second : SameButTurns middle after) :
    SameButTurns before after where
  table := second.table.trans first.table
  nextPid := second.nextPid.trans first.nextPid
  pidAtNull := second.pidAtNull.trans first.pidAtNull
  proc := by
    intro a
    obtain ⟨state, here, turn⟩ := first.proc a
    obtain ⟨state', there, turn'⟩ := second.proc a
    have between : middle.state a = state := by rw [Processes.state, here]
    rw [between] at turn'
    refine ⟨state', by rw [there, here], ?_⟩
    rcases turn' with same | ⟨awake', awake⟩
    · rw [same]
      exact turn
    · rcases turn with same | ⟨_, awake₀⟩
      · rw [same] at awake
        exact Or.inr ⟨awake', awake⟩
      · exact Or.inr ⟨awake', awake₀⟩
  outside := by
    intro a absent
    rw [second.outside a (by rwa [first.table]), first.outside a absent]

theorem setState {processes : Processes} {p : Addr} (present : p ∈ processes.table)
    (awake : Awake (processes.state p)) (state : ProcessState) (awake' : Awake state) :
    SameButTurns processes (processes.setState p state) := by
  refine ⟨rfl, rfl, rfl, ?_, ?_⟩
  · intro a
    rw [Processes.setState, proc_modify]
    split
    · next same =>
        subst same
        exact ⟨state, rfl, Or.inr ⟨awake', awake⟩⟩
    · exact ⟨processes.state a, rfl, Or.inl rfl⟩
  · intro a absent
    have different : a ≠ p := fun same => absent (same ▸ present)
    rw [Processes.setState, proc_modify, if_neg different]

theorem pid_eq (turns : SameButTurns before after) (a : Addr) :
    (after.proc a).pid = (before.proc a).pid := by
  obtain ⟨state, same, _⟩ := turns.proc a
  rw [same]

theorem parent_eq (turns : SameButTurns before after) (a : Addr) :
    after.parent a = before.parent a := by
  obtain ⟨state, same, _⟩ := turns.proc a
  rw [Processes.parent, same, Processes.parent]

theorem exitStatus_eq (turns : SameButTurns before after) (a : Addr) :
    (after.proc a).exitStatus = (before.proc a).exitStatus := by
  obtain ⟨state, same, _⟩ := turns.proc a
  rw [same]

theorem state_cases (turns : SameButTurns before after) (a : Addr) :
    after.state a = before.state a ∨ (Awake (after.state a) ∧ Awake (before.state a)) := by
  obtain ⟨state, same, turn⟩ := turns.proc a
  have now : after.state a = state := by rw [Processes.state, same]
  rw [now]
  exact turn

theorem state_iff (turns : SameButTurns before after) (a : Addr) {state : ProcessState}
    (asleep : ¬ Awake state) : after.state a = state ↔ before.state a = state := by
  rcases turns.state_cases a with same | ⟨awake', awake⟩
  · rw [same]
  · constructor
    · intro now
      exact absurd (now ▸ awake') asleep
    · intro old
      exact absurd (old ▸ awake) asleep

theorem awake_iff (turns : SameButTurns before after) (a : Addr) :
    Awake (after.state a) ↔ Awake (before.state a) := by
  rcases turns.state_cases a with same | ⟨awake', awake⟩
  · rw [same]
  · exact iff_of_true awake' awake

end SameButTurns

theorem Sound.schedule_turns {processes : Processes} (sound : processes.Sound) :
    SameButTurns processes processes.schedule.2 := by
  have preempted : SameButTurns processes processes.preempt := by
    rcases processes.preempt_cases with ⟨same, _⟩ | ⟨p, current, runs, queued⟩
    · rw [same]
      exact .refl processes
    · rw [queued]
      have turn := SameButTurns.setState (sound.current p current) (Or.inr runs) .ready (Or.inl rfl)
      exact ⟨turn.table, turn.nextPid, turn.pidAtNull, turn.proc, turn.outside⟩
  apply preempted.trans
  rw [Processes.schedule]
  rcases processes.preempt.dispatch_cases with ⟨_, same⟩ | ⟨p, rest, queue, given⟩
  · rw [same]
    exact .refl _
  · rw [given]
    have ready := (sound.preempt.ready_iff p).mp (queue ▸ List.mem_cons_self)
    have turn := SameButTurns.setState ready.1 (Or.inl ready.2) .running (Or.inr rfl)
    exact ⟨turn.table, turn.nextPid, turn.pidAtNull, turn.proc, turn.outside⟩

theorem Sound.schedule_result {processes : Processes} (sound : processes.Sound) :
    (processes.schedule.1 = none ∧
      ∀ p ∈ processes.schedule.2.table, processes.schedule.2.state p ≠ .running) ∨
    ∃ p, processes.schedule.1 = some p ∧ processes.schedule.2.current = some p ∧
      processes.schedule.2.state p = .running := by
  rw [Processes.schedule]
  rcases processes.preempt.dispatch_cases with ⟨_, same⟩ | ⟨p, rest, _, given⟩
  · rw [same]
    exact Or.inl ⟨rfl, sound.preempt_rests⟩
  · rw [given]
    refine Or.inr ⟨p, rfl, rfl, ?_⟩
    exact (state_setState_iff ..).mpr (Or.inl ⟨rfl, rfl⟩)

end Processes

end ApnaOS.Process
