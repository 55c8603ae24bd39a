import ApnaOS.Process.Scheduling

/-!
# Every step of the model is orderly

The model together with who has the CPU, who is inside `wait_syscall` and the
history: an invariant of every step.
-/

set_option autoImplicit false

namespace ApnaOS.Process

open ApnaOS.Lib
open Function (update update_self update_of_ne)

/-- The process is suspended in `wait_syscall`, or it is about to go on there. -/
def MayWait (state : ProcessState) : Prop := state = .blocked ∨ Awake state

structure Accounted (processes : Processes) (control : Control) : Prop where
  inWait : ∀ p, control.inWait p = true → p ∈ processes.table ∧ MayWait (processes.state p)
  waits : ∀ p, processes.state p = .blocked → control.inWait p = true
  history : control.born.Perm (control.reaped ++ processes.table)

namespace Spec

structure Orderly (spec : Spec) : Prop where
  sound : spec.processes.Sound
  accounted : Accounted spec.processes spec.control
  runs : spec.control.inCli = false →
    ∃ p, spec.processes.current = some p ∧ spec.processes.state p = .running
  idle : spec.control.inCli = true →
    ∀ p ∈ spec.processes.table, spec.processes.state p ≠ .running

theorem caller_eq_some {spec : Spec} {p : Addr} : spec.caller = some p ↔
    spec.control.inCli = false ∧ spec.processes.current = some p ∧
      spec.control.inWait p = false := by
  rw [caller, Control.caller]
  cases spec.control.inCli with
  | true => simp
  | false => simp [Option.filter_eq_some_iff]

theorem resumer_eq_some {spec : Spec} {p : Addr} : spec.resumer = some p ↔
    spec.control.inCli = false ∧ spec.processes.current = some p ∧
      spec.control.inWait p = true := by
  rw [resumer, Control.resumer]
  cases spec.control.inCli with
  | true => simp
  | false => simp [Option.filter_eq_some_iff]

namespace Orderly

variable {spec : Spec} {p : Addr}

theorem current_runs (orderly : Orderly spec) (inCli : spec.control.inCli = false)
    (current : spec.processes.current = some p) :
    p ∈ spec.processes.table ∧ spec.processes.state p = .running := by
  obtain ⟨q, same, runs⟩ := orderly.runs inCli
  rw [current, Option.some.injEq] at same
  exact ⟨orderly.sound.current p current, same ▸ runs⟩

theorem caller_runs (orderly : Orderly spec) (caller : spec.caller = some p) :
    p ∈ spec.processes.table ∧ spec.processes.state p = .running := by
  obtain ⟨inCli, current, _⟩ := caller_eq_some.mp caller
  exact orderly.current_runs inCli current

end Orderly

/-! ## After the scheduler -/

theorem reschedule_orderly {processes : Processes} {control : Control}
    (sound : processes.Sound) (accounted : Accounted processes control) :
    Orderly (reschedule processes control) := by
  have turns := sound.schedule_turns
  refine ⟨sound.schedule, ⟨?_, ?_, ?_⟩, ?_, ?_⟩
  · intro p inWait
    obtain ⟨present, may⟩ := accounted.inWait p inWait
    rw [reschedule, turns.table]
    refine ⟨present, ?_⟩
    rcases may with blocks | awake
    · exact Or.inl ((turns.state_iff p (by simp [Awake])).mpr blocks)
    · exact Or.inr ((turns.awake_iff p).mpr awake)
  · intro p blocks
    exact accounted.waits p ((turns.state_iff p (by simp [Awake])).mp blocks)
  · rw [reschedule, turns.table]
    exact accounted.history
  · intro inCli
    rcases sound.schedule_result with ⟨nobody, _⟩ | ⟨p, _, current, runs⟩
    · simp [reschedule, Control.switch, nobody] at inCli
    · exact ⟨p, current, runs⟩
  · intro inCli
    rcases sound.schedule_result with ⟨_, rests⟩ | ⟨p, given, _, _⟩
    · exact rests
    · simp [reschedule, Control.switch, given] at inCli

/-! ## The other steps -/

section Steps

variable {processes : Processes} {control : Control} {p child : Addr}

theorem Orderly.grow (orderly : Orderly ⟨processes, control⟩) (fresh : p ∉ processes.table)
    {after : Processes} (sound : after.Sound) (table : after.table = p :: processes.table)
    (state : ∀ a, after.state a = if a = p then .ready else processes.state a)
    (current : after.current = processes.current) {event : Event} (born : event.born = some p)
    (reaped : event.reaped = none) : Orderly ⟨after, control.log event⟩ := by
  have old : ∀ q ∈ processes.table, after.state q = processes.state q := by
    intro q present
    have different : q ≠ p := fun same => fresh (same ▸ present)
    rw [state, if_neg different]
  refine ⟨sound, ⟨?_, ?_, ?_⟩, ?_, ?_⟩
  · intro q inWait
    obtain ⟨present, may⟩ := orderly.accounted.inWait q inWait
    rw [table, old q present]
    exact ⟨List.mem_cons_of_mem p present, may⟩
  · intro q blocks
    rw [state] at blocks
    split at blocks
    · cases blocks
    · exact orderly.accounted.waits q blocks
  · have history := orderly.accounted.history
    rw [Control.born, Control.reaped, Control.log, List.filterMap_cons_some born,
      List.filterMap_cons_none reaped, table]
    exact (history.cons p).trans List.perm_middle.symm
  · intro inCli
    obtain ⟨q, same, runs⟩ := orderly.runs inCli
    exact ⟨q, current.trans same, (old q (orderly.sound.current q same)).trans runs⟩
  · intro inCli q present runs
    rw [state] at runs
    split at runs
    · cases runs
    · next different =>
        rw [table] at present
        exact orderly.idle inCli q ((List.mem_cons.mp present).resolve_left different) runs

theorem Orderly.reap (orderly : Orderly ⟨processes, control⟩) (inCli : control.inCli = false)
    (present : child ∈ processes.table) (zombie : processes.state child = .zombie)
    {event : Event} (born : event.born = none) (reaped : event.reaped = some child) :
    Orderly ⟨processes.unlink child, control.log event⟩ := by
  obtain ⟨q, current, runs⟩ := orderly.runs inCli
  have elsewhere : processes.current ≠ some child := by
    intro same
    have equal := Option.some.inj (current.symm.trans same)
    rw [equal] at runs
    exact absurd (zombie.symm.trans runs) (by decide)
  have kept : ∀ q ∈ processes.table, MayWait (processes.state q) →
      q ∈ (processes.unlink child).table := by
    intro q present may
    have different : q ≠ child := by
      intro same
      rw [same, zombie] at may
      simp [MayWait, Awake] at may
    exact (List.mem_erase_of_ne different).mpr present
  refine ⟨orderly.sound.unlink zombie elsewhere, ⟨?_, orderly.accounted.waits, ?_⟩, orderly.runs, ?_⟩
  · intro q inWait
    obtain ⟨present, may⟩ := orderly.accounted.inWait q inWait
    exact ⟨kept q present may, may⟩
  · have history := orderly.accounted.history
    rw [Control.born, Control.reaped, Control.log, List.filterMap_cons_none born,
      List.filterMap_cons_some reaped]
    apply history.trans
    apply ((List.perm_cons_erase present).append_left _).trans
    exact List.perm_middle
  · intro inCli q present
    exact orderly.idle inCli q (List.mem_of_mem_erase present)

theorem Orderly.release (orderly : Orderly ⟨processes, control⟩)
    (awake : processes.state p ≠ .blocked) :
    Orderly ⟨processes, control.setInWait p false⟩ := by
  refine ⟨orderly.sound, ⟨?_, ?_, orderly.accounted.history⟩, orderly.runs, orderly.idle⟩
  · intro q inWait
    by_cases same : q = p
    · simp [Control.setInWait, same] at inWait
    · simp only [Control.setInWait, update_of_ne same] at inWait
      exact orderly.accounted.inWait q inWait
  · intro q blocks
    have different : q ≠ p := fun same => awake (same ▸ blocks)
    simp only [Control.setInWait, update_of_ne different]
    exact orderly.accounted.waits q blocks

theorem Orderly.record (orderly : Orderly ⟨processes, control⟩) {event : Event}
    (born : event.born = none) (reaped : event.reaped = none) :
    Orderly ⟨processes, control.log event⟩ := by
  refine ⟨orderly.sound, ⟨orderly.accounted.inWait, orderly.accounted.waits, ?_⟩, orderly.runs,
    orderly.idle⟩
  rw [Control.born, Control.reaped, Control.log, List.filterMap_cons_none born,
    List.filterMap_cons_none reaped]
  exact orderly.accounted.history

theorem Orderly.quiet (orderly : Orderly ⟨processes, control⟩) {after : Processes}
    (sound : after.Sound) (table : after.table = processes.table)
    (state : ∀ a, after.state a = processes.state a)
    (current : after.current = processes.current) : Orderly ⟨after, control⟩ := by
  refine ⟨sound, ⟨?_, ?_, ?_⟩, ?_, ?_⟩
  · intro q inWait
    rw [table, state]
    exact orderly.accounted.inWait q inWait
  · intro q blocks
    rw [state] at blocks
    exact orderly.accounted.waits q blocks
  · rw [table]
    exact orderly.accounted.history
  · intro inCli
    obtain ⟨q, same, runs⟩ := orderly.runs inCli
    exact ⟨q, current.trans same, (state q).trans runs⟩
  · intro inCli q present runs
    rw [table] at present
    exact orderly.idle inCli q present ((state q).symm.trans runs)

theorem Orderly.stop (orderly : Orderly ⟨processes, control⟩)
    (present : p ∈ processes.table) (runs : processes.state p = .running)
    {state : ProcessState} (asleep : ¬ Awake state) (unblocked : state ≠ .blocked)
    (outside : control.inWait p = false) :
    Orderly (reschedule (processes.setState p state) control) := by
  have sound : (processes.setState p state).Sound :=
    orderly.sound.setState present (by simp [runs]) state (fun same => asleep (Or.inl same))
      (fun same => asleep (Or.inr same))
  refine reschedule_orderly sound ⟨?_, ?_, orderly.accounted.history⟩
  · intro q inWait
    have different : q ≠ p := by
      intro same
      rw [same, outside] at inWait
      cases inWait
    rw [Processes.state_setState, if_neg different]
    exact orderly.accounted.inWait q inWait
  · intro q blocks
    rcases (Processes.state_setState_iff ..).mp blocks with ⟨_, same⟩ | ⟨_, old⟩
    · exact absurd same unblocked
    · exact orderly.accounted.waits q old

end Steps

theorem zombieChild_spec {processes : Processes} {p child : Addr}
    (found : processes.zombieChild p = some child) :
    child ∈ processes.table ∧ processes.isZombieChild p child = true :=
  ⟨List.mem_of_find?_eq_some found, List.find?_some found⟩

theorem isZombieChild_iff {processes : Processes} {p child : Addr} :
    processes.isZombieChild p child = true ↔
      processes.pidOf (processes.parent child) = (processes.proc p).pid ∧
        processes.state child = .zombie := by
  rw [Processes.isZombieChild, decide_eq_true_iff]

theorem Orderly.suspend {processes : Processes} {control : Control} {p : Addr}
    (orderly : Orderly ⟨processes, control⟩) (present : p ∈ processes.table)
    (runs : processes.state p = .running) :
    Orderly (reschedule (processes.setState p .blocked) (control.setInWait p true)) := by
  have sound := orderly.sound.block present runs
  refine reschedule_orderly sound ⟨?_, ?_, orderly.accounted.history⟩
  · intro q inWait
    rw [Processes.state_setState]
    by_cases same : q = p
    · rw [if_pos same, same]
      exact ⟨present, Or.inl rfl⟩
    · rw [if_neg same]
      simp only [Control.setInWait, update_of_ne same] at inWait
      exact orderly.accounted.inWait q inWait
  · intro q blocks
    by_cases same : q = p
    · simp [Control.setInWait, same]
    · simp only [Control.setInWait, update_of_ne same]
      rw [Processes.state_setState, if_neg same] at blocks
      exact orderly.accounted.waits q blocks

theorem Orderly.exit {processes : Processes} {control : Control} {p : Addr}
    (orderly : Orderly ⟨processes, control⟩) (present : p ∈ processes.table)
    (runs : processes.state p = .running) (outside : control.inWait p = false) (status : Int) :
    Orderly (reschedule (processes.exit p status) control) := by
  refine reschedule_orderly (orderly.sound.exit present runs status) ⟨?_, ?_, ?_⟩
  · intro q inWait
    have different : q ≠ p := by
      intro same
      rw [same, outside] at inWait
      cases inWait
    obtain ⟨present, may⟩ := orderly.accounted.inWait q inWait
    rw [Processes.table_exit]
    rw [Processes.state]
    rcases processes.proc_exit_of_ne different status with ⟨same, _⟩ | ⟨_, _, woken⟩
    · rw [same]
      exact ⟨present, may⟩
    · rw [woken]
      exact ⟨present, Or.inr (Or.inl rfl)⟩
  · intro q blocks
    have different : q ≠ p := by
      intro same
      rw [same, Processes.state, Processes.proc_exit_self] at blocks
      cases blocks
    rw [Processes.state] at blocks
    rcases processes.proc_exit_of_ne different status with ⟨same, _⟩ | ⟨_, _, woken⟩
    · rw [same] at blocks
      exact orderly.accounted.waits q blocks
    · rw [woken] at blocks
      cases blocks
  · rw [Processes.table_exit]
    exact orderly.accounted.history

theorem Orderly.step {spec next : Spec} {action : Action} (orderly : Orderly spec)
    (taken : Step spec action next) : Orderly next := by
  obtain ⟨processes, control⟩ := spec
  cases taken with
  | @created e priority d t p accepts fresh =>
      refine orderly.grow fresh (orderly.sound.create fresh priority) rfl ?_ rfl rfl rfl
      intro a
      rw [Processes.state, Processes.proc_create]
      split <;> rfl
  | notCreated accepts =>
      exact orderly.quiet orderly.sound.countPid rfl (fun _ => rfl) rfl
  | started inCli => exact reschedule_orderly orderly.sound orderly.accounted
  | @forked ebp p child caller fresh =>
      refine orderly.grow fresh (orderly.sound.fork fresh) rfl ?_ rfl rfl rfl
      intro a
      rw [Processes.state, Processes.proc_fork]
      split <;> rfl
  | noChild caller => exact orderly
  | @lostChild ebp p child caller fresh =>
      refine orderly.quiet (orderly.sound.forkChild p child) rfl ?_ rfl
      intro a
      rw [Processes.state, Processes.proc_forkChild]
      split <;> rfl
  | yielded caller => exact reschedule_orderly orderly.sound orderly.accounted
  | @collected ebp esp p child caller found =>
      obtain ⟨present, zombie⟩ := zombieChild_spec found
      exact orderly.reap (caller_eq_some.mp caller).1 present (isZombieChild_iff.mp zombie).2 rfl rfl
  | @suspended ebp esp p caller none_found =>
      obtain ⟨present, runs⟩ := orderly.caller_runs caller
      exact orderly.suspend present runs
  | @resumed p child resumer found =>
      obtain ⟨present, zombie⟩ := zombieChild_spec found
      obtain ⟨inCli, current, _⟩ := resumer_eq_some.mp resumer
      have runs := (orderly.current_runs inCli current).2
      exact (orderly.release (by simp [runs])).reap inCli present (isZombieChild_iff.mp zombie).2
        rfl rfl
  | @missed p resumer none_found =>
      obtain ⟨inCli, current, _⟩ := resumer_eq_some.mp resumer
      have runs := (orderly.current_runs inCli current).2
      exact (orderly.release (by simp [runs])).record rfl rfl
  | @exited status esp p caller =>
      obtain ⟨present, runs⟩ := orderly.caller_runs caller
      exact (orderly.record rfl rfl).exit present runs (caller_eq_some.mp caller).2.2 status
  | @stateExited ebp esp p caller =>
      obtain ⟨present, runs⟩ := orderly.caller_runs caller
      exact orderly.stop present runs (by simp [Awake]) (by decide) (caller_eq_some.mp caller).2.2

theorem Step.born_cases {spec next : Spec} {action : Action} (taken : spec.Step action next) :
    next.control.born = spec.control.born ∨
      ∃ p, next.control.born = p :: spec.control.born := by
  cases taken with
  | created p | forked p => exact Or.inr ⟨p, rfl⟩
  | _ => exact Or.inl rfl

end Spec

end ApnaOS.Process
