import Mathlib.Data.List.Chain
import ApnaOS.Lib.Seniority
import ApnaOS.Process.ScheduleCalls

/-!
# Who is dispatched

`schedule` picks the most urgent process, and of equally urgent ones the one that has
been ready longest; a process it preempts joins last.  Two equally urgent processes that
only yield are therefore dispatched in turn.
-/

set_option autoImplicit false

namespace ApnaOS.Process

open ApnaOS.Lib

variable {A : Type}

namespace Kernel

def Ready (kernel : Kernel A) (p : Addr) : Prop :=
  kernel.InTable p ∧ (kernel.pcb p).state = .ready

def priority (kernel : Kernel A) (p : Addr) : Int := (kernel.pcb p).priority

/-- What `schedule` picks from. -/
def Candidate (kernel : Kernel A) (p : Addr) : Prop :=
  kernel.Ready p ∨ (kernel.currentProcess = some p ∧ (kernel.pcb p).state = .running)

/-- `p` is the candidate to pick, after these earlier moments. -/
structure Picks (kernel : Kernel A) (moments : List (Kernel A)) (p : Addr) : Prop where
  candidate : kernel.Candidate p
  first : ∀ q, kernel.Candidate q → q ≠ p → Ahead kernel.priority Ready (kernel :: moments) p q

end Kernel

/-- The states of the kernel during a run, before each step and at each call of
`schedule`, the latest first. -/
def moments (trace : List (Transition (Machine A) Action)) : List (Kernel A) :=
  (trace.flatMap fun transition => transition.before.kernel ::
    (transition.before.scheduleCall transition.action).toList).reverse

def dispatched (transition : Transition (Machine A) Action) : Option Addr :=
  match transition.before.scheduleCall transition.action with
  | none => none
  | some _ =>
      if transition.after.control.inCli then none else transition.after.kernel.currentProcess

def OnlyYields (p : Addr) (trace : List (Transition (Machine A) Action)) : Prop :=
  ∀ transition ∈ trace, transition.before.caller = some p →
    ∃ ebp esp, transition.action = .yield ebp esp

def InTurn (a b : Addr) (dispatches : List Addr) : Prop :=
  (dispatches.filter fun p => p = a ∨ p = b).IsChain (· ≠ ·)

/-! ## One call in the model -/

namespace Processes

variable {processes : Processes} {p : Addr}

theorem SameButTurns.priority_eq {before after : Processes} (turns : SameButTurns before after) :
    after.priority = before.priority := by
  funext a
  obtain ⟨state, same, _⟩ := turns.proc a
  rw [priority, same, priority]

theorem priority_setState (processes : Processes) (p : Addr) (state : ProcessState) :
    (processes.setState p state).priority = processes.priority := by
  funext a
  rw [priority, setState, proc_modify, priority]
  split <;> rfl

theorem mem_ready_preempt (processes : Processes) (a : Addr) : a ∈ processes.preempt.ready ↔
    a ∈ processes.ready ∨ (processes.current = some a ∧ processes.state a = .running) := by
  rcases processes.preempt_cases with ⟨same, rests⟩ | ⟨p, current, runs, queued⟩
  · rw [same, or_iff_left]
    rintro ⟨current, runs⟩
    exact rests a current runs
  · rw [queued, mem_ready_enqueue, ready_setState, or_comm, current, Option.some.injEq]
    refine or_congr_right ⟨?_, fun here => here.1.symm⟩
    intro same
    exact ⟨same.symm, same ▸ runs⟩

theorem lined_preempt {σ : Type} {Waits : σ → Addr → Prop} {now : σ} {earlier : List σ}
    (sound : processes.Sound) (waits : ∀ a, Waits now a ↔ a ∈ processes.ready)
    (lined : Lined processes.priority Waits (now :: earlier) processes.ready) :
    Lined processes.priority Waits (now :: earlier) processes.preempt.ready := by
  rcases processes.preempt_cases with ⟨same, _⟩ | ⟨p, _, runs, queued⟩
  · rw [same]
    exact lined
  · have inserted := lined.arrive waits (sound.not_ready (p := p) (by simp [runs]))
    rw [queued, enqueue, priority_setState]
    exact inserted

theorem schedule_ready (processes : Processes) :
    (processes.schedule.1 = none ∧ processes.preempt.ready = [] ∧
      processes.schedule.2.ready = []) ∨
    ∃ p, processes.schedule.1 = some p ∧ processes.schedule.2.current = some p ∧
      processes.preempt.ready = p :: processes.schedule.2.ready := by
  rw [schedule]
  rcases processes.preempt.dispatch_cases with ⟨empty, same⟩ | ⟨p, rest, queue, given⟩
  · rw [same]
    exact Or.inl ⟨rfl, empty, empty⟩
  · rw [given]
    exact Or.inr ⟨p, rfl, rfl, queue⟩

theorem sublist_schedule (processes : Processes) :
    processes.schedule.2.ready.Sublist processes.preempt.ready := by
  rcases processes.schedule_ready with ⟨_, _, empty⟩ | ⟨p, _, _, queue⟩
  · rw [empty]
    exact List.nil_sublist _
  · rw [queue]
    exact List.sublist_cons_self p _

end Processes

theorem Arrives.lined {before after : Processes} (arrives : Arrives before after)
    {σ : Type} {Waits : σ → Addr → Prop} {now : σ} {earlier : List σ} (sound : before.Sound)
    (waits : ∀ a, Waits now a ↔ a ∈ before.ready)
    (lined : Lined before.priority Waits (now :: earlier) before.ready) :
    Lined after.priority Waits (now :: earlier) after.ready := by
  have same := lined.congr fun a member =>
    arrives.priority a ((sound.ready_iff a).mp member).1
  rcases arrives.ready with kept | ⟨x, absent, joined⟩
  · rw [kept]
    exact same
  · rw [joined]
    exact same.arrive waits absent

/-! ## The queue along a run -/

theorem Refines.ready_iff {kernel : Kernel A} {processes : Processes}
    (refines : Refines kernel processes) (sound : processes.Sound) (p : Addr) :
    kernel.Ready p ↔ p ∈ processes.ready := by
  rw [Kernel.Ready, refines.inTable_iff, refines.state_eq]
  exact (sound.ready_iff p).symm

theorem Refines.priority_eq {kernel : Kernel A} {processes : Processes}
    (refines : Refines kernel processes) : kernel.priority = processes.priority := by
  funext a
  exact congrArg Proc.priority (refines.proc a)

theorem Refines.candidate_iff {kernel : Kernel A} {processes : Processes}
    (refines : Refines kernel processes) (sound : processes.Sound) (p : Addr) :
    kernel.Candidate p ↔ p ∈ processes.preempt.ready := by
  rw [Kernel.Candidate, refines.ready_iff sound, refines.current, refines.state_eq,
    processes.mem_ready_preempt]

theorem Refines.picks {kernel : Kernel A} {processes : Processes} {earlier : List (Kernel A)}
    (refines : Refines kernel processes) (sound : processes.Sound)
    (lined : Lined processes.priority Kernel.Ready (kernel :: earlier) processes.preempt.ready)
    {p : Addr} {rest : List Addr} (queue : processes.preempt.ready = p :: rest) :
    kernel.Picks earlier p := by
  refine ⟨(refines.candidate_iff sound p).mpr (queue ▸ List.mem_cons_self), ?_⟩
  intro q candidate different
  rw [queue] at lined
  have waiting := (refines.candidate_iff sound q).mp candidate
  rw [queue] at waiting
  rw [refines.priority_eq]
  exact (List.pairwise_cons.mp lined).1 q ((List.mem_cons.mp waiting).resolve_left different)

/-- Everybody in the ready queue stands there by priority and seniority. -/
structure Standing (alloc : IsolatingAllocator A) (machine : Machine A) (spec : Spec)
    (earlier : List (Kernel A)) : Prop where
  shows : Shows alloc machine spec
  orderly : spec.Orderly
  lined : Lined spec.processes.priority Kernel.Ready (machine.kernel :: earlier)
    spec.processes.ready

theorem Standing.step {alloc : IsolatingAllocator A} {machine next : Machine A} {action : Action}
    {spec : Spec} {earlier : List (Kernel A)} (standing : Standing alloc machine spec earlier)
    (taken : machine.step alloc.toAllocator action = some next) :
    (∃ spec', Spec.Step spec action spec' ∧ Standing alloc next spec'
      ((machine.scheduleCall action).toList ++ machine.kernel :: earlier)) ∧
    ∀ kernel p, machine.scheduleCall action = some kernel →
      dispatched ⟨machine, action, next⟩ = some p → kernel.Picks (machine.kernel :: earlier) p := by
  obtain ⟨shows, orderly, lined⟩ := standing
  obtain ⟨next', spec', simulated⟩ := shows.simulate orderly (enabled_of_step taken)
  cases Option.some.inj (taken.symm.trans simulated.taken)
  have shows' := simulated.shows
  have orderly' := orderly.step simulated.step
  have ready := shows.refines.ready_iff orderly.sound
  have ready' := shows'.refines.ready_iff orderly'.sound
  rcases simulated.step.scheduleCall orderly with
    ⟨processes, control, called, same⟩ | ⟨uncalled, arrives, _, _⟩
  · rcases shows.scheduleCall orderly action with ⟨_, uncalled⟩ | ⟨kernel, processes', here, there,
      refines⟩
    · cases called.symm.trans uncalled
    cases Option.some.inj (called.symm.trans there)
    obtain ⟨sound, arrives, _⟩ := orderly.scheduleCall called
    have ready₁ := refines.ready_iff sound
    have joined := arrives.lined orderly.sound ready lined
    have call := joined.keep (List.Sublist.refl _) fun a member => (ready₁ a).mpr member
    have queue := processes.lined_preempt sound ready₁ call
    rw [here]
    constructor
    · refine ⟨spec', simulated.step, shows', orderly', ?_⟩
      rw [same] at ready' ⊢
      have left := queue.keep processes.sublist_schedule fun a member => (ready' a).mpr member
      rw [Spec.reschedule, sound.schedule_turns.priority_eq]
      exact left
    · intro kernel' p called' turn
      cases Option.some.inj called'
      simp only [dispatched, here, shows'.control, shows'.refines.current, same,
        Spec.reschedule, Control.switch] at turn
      rcases processes.schedule_ready with ⟨nobody, _⟩ | ⟨q, given, current, front⟩
      · simp [nobody] at turn
      · simp only [given, Option.isNone_some, Bool.false_eq_true, if_false, current,
          Option.some.injEq] at turn
        exact refines.picks sound queue (turn ▸ front)
  · rcases shows.scheduleCall orderly action with ⟨here, _⟩ | ⟨kernel, processes', _, there, _⟩
    · rw [here]
      refine ⟨⟨spec', simulated.step, shows', orderly', ?_⟩, fun kernel p called => by cases called⟩
      exact (arrives.lined orderly.sound ready lined).keep (List.Sublist.refl _)
        fun a member => (ready' a).mpr member
    · cases uncalled.symm.trans there

theorem moments_cons (transition : Transition (Machine A) Action)
    (rest : List (Transition (Machine A) Action)) :
    moments (transition :: rest) = moments rest ++
      ((transition.before.scheduleCall transition.action).toList ++ [transition.before.kernel]) := by
  rw [moments, List.flatMap_cons, List.reverse_append, List.reverse_cons, moments]
  cases transition.before.scheduleCall transition.action with
  | none => rfl
  | some kernel => rfl

theorem Standing.run {alloc : IsolatingAllocator A} {first last : Machine A}
    {trace : List (Transition (Machine A) Action)} {spec : Spec} {earlier : List (Kernel A)}
    (standing : Standing alloc first spec earlier)
    (run : (processSystem alloc.toAllocator).Trace first trace last) :
    ∃ spec', Standing alloc last spec' (moments trace ++ earlier) := by
  induction run generalizing spec earlier with
  | nil machine => exact ⟨spec, standing⟩
  | cons taken _ ih =>
      obtain ⟨spec', _, standing'⟩ := (standing.step taken).1
      obtain ⟨spec'', later⟩ := ih standing'
      refine ⟨spec'', ?_⟩
      rw [moments_cons, List.append_assoc, List.append_assoc]
      exact later

/-! ## Two processes in turn -/

namespace Processes

variable {processes before after : Processes} {a b : Addr}

structure Rivals (processes : Processes) (a b : Addr) : Prop where
  different : a ≠ b
  present : a ∈ processes.table ∧ b ∈ processes.table
  awake : Awake (processes.state a) ∧ Awake (processes.state b)
  priority : processes.priority a = processes.priority b

/-- `b` has its turn before `a` has its next. -/
def Behind (processes : Processes) (a b : Addr) : Prop :=
  (processes.state a = .running ∧ b ∈ processes.ready) ∨ [b, a].Sublist processes.ready

namespace Rivals

theorem symm (rivals : Rivals processes a b) : Rivals processes b a :=
  ⟨rivals.different.symm, rivals.present.symm, rivals.awake.symm, rivals.priority.symm⟩

theorem behind_total (rivals : Rivals processes a b) (sound : processes.Sound) :
    Behind processes a b ∨ Behind processes b a := by
  obtain ⟨readyA | runsA, readyB | runsB⟩ := rivals.awake
  · have left := (sound.ready_iff a).mpr ⟨rivals.present.1, readyA⟩
    have right := (sound.ready_iff b).mpr ⟨rivals.present.2, readyB⟩
    rcases pair_sublist_total left right rivals.different with front | front
    · exact Or.inr (Or.inr front)
    · exact Or.inl (Or.inr front)
  · exact Or.inr (Or.inl ⟨runsB, (sound.ready_iff a).mpr ⟨rivals.present.1, readyA⟩⟩)
  · exact Or.inl (Or.inl ⟨runsA, (sound.ready_iff b).mpr ⟨rivals.present.2, readyB⟩⟩)
  · have same := (sound.running a rivals.present.1 runsA).symm.trans
      (sound.running b rivals.present.2 runsB)
    exact absurd (Option.some.inj same) rivals.different

theorem preempt (rivals : Rivals processes a b) (sound : processes.Sound)
    (sorted : processes.ready.Pairwise fun x y => processes.priority x ≤ processes.priority y)
    (behind : Behind processes a b) : [b, a].Sublist processes.preempt.ready := by
  rcases processes.preempt_cases with ⟨same, rests⟩ | ⟨p, current, _, queued⟩
  · rw [same]
    rcases behind with ⟨runs, _⟩ | front
    · exact absurd runs (rests a (sound.running a rivals.present.1 runs))
    · exact front
  · rw [queued, enqueue, priority_setState, ready_setState]
    rcases behind with ⟨runs, waits⟩ | front
    · have same := current.symm.trans (sound.running a rivals.present.1 runs)
      rw [Option.some.inj same]
      exact pair_sublist_insertByKey waits rivals.priority sorted
    · exact front.trans (sublist_insertByKey ..)

theorem schedule (rivals : Rivals processes a b) (sound : processes.Sound)
    (sorted : processes.ready.Pairwise fun x y => processes.priority x ≤ processes.priority y)
    (behind : Behind processes a b) :
    ∃ p, processes.schedule.1 = some p ∧ processes.schedule.2.current = some p ∧
      ((p = b ∧ Behind processes.schedule.2 b a) ∨
        (p ≠ b ∧ p ≠ a ∧ Behind processes.schedule.2 a b)) := by
  have front := rivals.preempt sound sorted behind
  have nodup := sound.preempt.ready_nodup
  rw [Processes.schedule]
  rcases processes.preempt.dispatch_cases with ⟨empty, _⟩ | ⟨p, rest, queue, given⟩
  · rw [empty] at front
    cases front
  · rw [given]
    rw [queue] at front nodup
    refine ⟨p, rfl, rfl, ?_⟩
    rcases pair_sublist_cons front nodup with ⟨here, waits⟩ | ⟨notB, notA, later⟩
    · refine Or.inl ⟨here, Or.inl ⟨?_, waits⟩⟩
      exact (state_setState_iff ..).mpr (Or.inl ⟨here.symm, rfl⟩)
    · exact Or.inr ⟨notB, notA, Or.inr later⟩

theorem turns (rivals : Rivals processes a b) (turns : SameButTurns processes after) :
    Rivals after a b where
  different := rivals.different
  present := by
    rw [turns.table]
    exact rivals.present
  awake := ⟨(turns.awake_iff a).mpr rivals.awake.1, (turns.awake_iff b).mpr rivals.awake.2⟩
  priority := by
    rw [turns.priority_eq]
    exact rivals.priority

theorem arrive (rivals : Rivals before a b) (arrives : Arrives before after)
    (sound : before.Sound) (sound' : after.Sound)
    (keeps : ∀ c, c = a ∨ c = b → c ∈ before.table → before.state c = .running →
      c ∈ after.table ∧ after.state c = .running)
    (behind : Behind before a b) : Rivals after a b ∧ Behind after a b := by
  have more : before.ready.Sublist after.ready := by
    rcases arrives.ready with same | ⟨x, _, joined⟩
    · rw [same]
    · rw [joined]
      exact sublist_insertByKey ..
  have awake : ∀ c, c = a ∨ c = b → c ∈ before.table → Awake (before.state c) →
      c ∈ after.table ∧ Awake (after.state c) := by
    intro c one present state
    rcases state with waits | runs
    · have member := (sound.ready_iff c).mpr ⟨present, waits⟩
      have here := (sound'.ready_iff c).mp (more.subset member)
      exact ⟨here.1, Or.inl here.2⟩
    · have here := keeps c one present runs
      exact ⟨here.1, Or.inr here.2⟩
  have left := awake a (Or.inl rfl) rivals.present.1 rivals.awake.1
  have right := awake b (Or.inr rfl) rivals.present.2 rivals.awake.2
  refine ⟨⟨rivals.different, ⟨left.1, right.1⟩, ⟨left.2, right.2⟩, ?_⟩, ?_⟩
  · rw [arrives.priority a rivals.present.1, arrives.priority b rivals.present.2, rivals.priority]
  · rcases behind with ⟨runs, waits⟩ | front
    · exact Or.inl ⟨(keeps a (Or.inl rfl) rivals.present.1 runs).2, more.subset waits⟩
    · exact Or.inr (front.trans more)

end Rivals

end Processes

namespace Spec

open Processes (Rivals Behind)

theorem Orderly.runs_at_call {spec : Spec} (orderly : spec.Orderly) {action : Action}
    {processes : Processes} (called : spec.scheduleCall action = some processes) {c : Addr}
    (yields : spec.caller = some c → ∃ ebp esp, action = .yield ebp esp)
    (present : c ∈ spec.processes.table) (runs : spec.processes.state c = .running) :
    c ∈ processes.table ∧ processes.state c = .running := by
  have caller : ∀ p, spec.caller = some p → ∃ ebp esp, action = .yield ebp esp := by
    intro p calls
    have same := (caller_eq_some.mp calls).2.1.symm.trans (orderly.sound.running c present runs)
    exact yields (Option.some.inj same ▸ calls)
  cases action with
  | createProcess | fork | resume => cases called
  | start esp =>
      simp only [Spec.scheduleCall, Option.ite_none_right_eq_some] at called
      exact absurd runs (orderly.idle called.1 c present)
  | yield ebp esp =>
      obtain ⟨_, _, same⟩ := Option.map_eq_some_iff.mp called
      rw [← same]
      exact ⟨present, runs⟩
  | wait ebp esp =>
      obtain ⟨p, calls, _⟩ := Option.bind_eq_some_iff.mp called
      obtain ⟨_, _, clash⟩ := caller p calls
      cases clash
  | exit status esp | stateExit ebp esp =>
      obtain ⟨p, calls, _⟩ := Option.map_eq_some_iff.mp called
      obtain ⟨_, _, clash⟩ := caller p calls
      cases clash

def dispatched (spec : Spec) (action : Action) (next : Spec) : Option Addr :=
  match spec.scheduleCall action with
  | none => none
  | some _ => if next.control.inCli then none else next.processes.current

theorem Step.in_turn {spec next : Spec} {action : Action} {a b : Addr}
    (step : Spec.Step spec action next) (orderly : spec.Orderly) {σ : Type}
    {Waits : σ → Addr → Prop} {now : σ} {earlier : List σ}
    (waits : ∀ c, Waits now c ↔ c ∈ spec.processes.ready)
    (lined : Lined spec.processes.priority Waits (now :: earlier) spec.processes.ready)
    (rivals : Rivals spec.processes a b) (behind : Behind spec.processes a b)
    (yields : ∀ c, c = a ∨ c = b → spec.caller = some c → ∃ ebp esp, action = .yield ebp esp) :
    Rivals next.processes a b ∧
      ((spec.dispatched action next = some b ∧ Behind next.processes b a) ∨
        (spec.dispatched action next ≠ some b ∧ spec.dispatched action next ≠ some a ∧
          Behind next.processes a b)) := by
  have sound := orderly.sound
  rw [dispatched]
  rcases step.scheduleCall orderly with ⟨processes, control, called, same⟩ | ⟨uncalled, arrives, undisturbed, _⟩
  · obtain ⟨sound', arrives, _⟩ := orderly.scheduleCall called
    obtain ⟨rivals', behind'⟩ := rivals.arrive arrives sound sound'
      (fun c one present runs => orderly.runs_at_call called (yields c one) present runs) behind
    have sorted := (arrives.lined sound waits lined).imp Ahead.le
    obtain ⟨p, given, current, outcome⟩ := rivals'.schedule sound' sorted behind'
    simp only [called, same, reschedule, Control.switch, given, current, Option.isNone_some,
      Bool.false_eq_true, if_false, ne_eq, Option.some.injEq]
    exact ⟨rivals'.turns sound'.schedule_turns, outcome⟩
  · obtain ⟨rivals', behind'⟩ := rivals.arrive arrives sound (orderly.step step).sound
      (fun c _ present runs => undisturbed.running present runs) behind
    rw [uncalled]
    exact ⟨rivals', Or.inr ⟨by simp, by simp, behind'⟩⟩

end Spec

theorem Shows.dispatched_eq {alloc : IsolatingAllocator A} {machine next : Machine A}
    {spec spec' : Spec} {action : Action} (shows : Shows alloc machine spec)
    (orderly : spec.Orderly) (shows' : Shows alloc next spec') :
    dispatched ⟨machine, action, next⟩ = spec.dispatched action spec' := by
  rw [dispatched, Spec.dispatched, shows'.control, shows'.refines.current]
  rcases shows.scheduleCall orderly action with ⟨here, there⟩ | ⟨_, _, here, there, _⟩
  · rw [here, there]
  · rw [here, there]

/-- If `b` has its turn before `a`, the two are dispatched in turn, beginning with `b`. -/
theorem Standing.in_turn {alloc : IsolatingAllocator A} {first last : Machine A}
    {trace : List (Transition (Machine A) Action)} {spec : Spec} {earlier : List (Kernel A)}
    {a b : Addr} (standing : Standing alloc first spec earlier)
    (rivals : spec.processes.Rivals a b) (behind : spec.processes.Behind a b)
    (run : (processSystem alloc.toAllocator).Trace first trace last)
    (yieldsA : OnlyYields a trace) (yieldsB : OnlyYields b trace) :
    (a :: (trace.filterMap dispatched).filter fun p => p = a ∨ p = b).IsChain (· ≠ ·) := by
  induction run generalizing spec earlier a b with
  | nil machine => exact List.IsChain.singleton a
  | @cons first middle last action rest taken tail ih =>
      obtain ⟨spec', step, standing'⟩ := (standing.step taken).1
      have orderly := standing.orderly
      have yields : ∀ c, c = a ∨ c = b → spec.caller = some c →
          ∃ ebp esp, action = .yield ebp esp := by
        intro c one caller
        rw [← standing.shows.caller_eq] at caller
        rcases one with same | same
        · exact yieldsA _ List.mem_cons_self (same ▸ caller)
        · exact yieldsB _ List.mem_cons_self (same ▸ caller)
      have laterA : OnlyYields a rest := fun t member => yieldsA t (List.mem_cons_of_mem _ member)
      have laterB : OnlyYields b rest := fun t member => yieldsB t (List.mem_cons_of_mem _ member)
      obtain ⟨rivals', outcome⟩ := step.in_turn orderly
        (standing.shows.refines.ready_iff orderly.sound) standing.lined rivals behind yields
      rw [← standing.shows.dispatched_eq orderly standing'.shows] at outcome
      rcases outcome with ⟨given, behind'⟩ | ⟨notB, notA, behind'⟩
      · have later := ih standing' rivals'.symm behind' laterB laterA
        have either : (decide (b = a ∨ b = b)) = true := by simp
        rw [List.filterMap_cons_some given, List.filter_cons, if_pos either]
        refine List.isChain_cons_cons.mpr ⟨rivals.different, ?_⟩
        simpa only [or_comm] using later
      · have later := ih standing' rivals' behind' laterA laterB
        cases given : dispatched ⟨first, action, middle⟩ with
        | none => rwa [List.filterMap_cons_none given]
        | some p =>
            rw [given] at notA notB
            have neither : ¬ (decide (p = a ∨ p = b)) = true := by
              rw [decide_eq_true_iff]
              rintro (here | here)
              · exact notA (here ▸ rfl)
              · exact notB (here ▸ rfl)
            rwa [List.filterMap_cons_some given, List.filter_cons, if_neg neither]

/-! ## Every run -/

theorem Machine.Initial.standing (alloc : IsolatingAllocator A) {machine : Machine A}
    (initial : machine.Initial) : ∃ spec, Standing alloc machine spec [] := by
  obtain ⟨spec, shows, orderly⟩ := machineInvariant_initial alloc initial
  have empty : spec.processes.ready = [] := by
    have queue := shows.refines.queue.chain
    rw [initial.queue] at queue
    exact Chain.unique queue rfl
  refine ⟨spec, shows, orderly, ?_⟩
  rw [empty]
  exact List.Pairwise.nil

/-- Every call of `schedule` that dispatches picks the most urgent candidate, of equally
urgent ones the one that has been ready longest; and from any state of a run on, two
equally urgent processes that are ready or running and only yield are dispatched in turn. -/
theorem dispatch_order (alloc : IsolatingAllocator A) {first machine : Machine A}
    {trace : List (Transition (Machine A) Action)} (initial : first.Initial)
    (run : (processSystem alloc.toAllocator).Trace first trace machine) :
    (∀ action next kernel p, machine.step alloc.toAllocator action = some next →
      machine.scheduleCall action = some kernel →
        dispatched ⟨machine, action, next⟩ = some p →
          kernel.Picks (machine.kernel :: moments trace) p) ∧
    ∀ rest last a b, (processSystem alloc.toAllocator).Trace machine rest last → a ≠ b →
      machine.kernel.InTable a → machine.kernel.InTable b →
      Awake (machine.kernel.pcb a).state → Awake (machine.kernel.pcb b).state →
      machine.kernel.priority a = machine.kernel.priority b →
      OnlyYields a rest → OnlyYields b rest → InTurn a b (rest.filterMap dispatched) := by
  obtain ⟨spec₀, standing₀⟩ := Machine.Initial.standing alloc initial
  obtain ⟨spec, standing⟩ := standing₀.run run
  rw [List.append_nil] at standing
  have refines := standing.shows.refines
  have sound := standing.orderly.sound
  constructor
  · intro action next kernel p taken called given
    exact (standing.step taken).2 kernel p called given
  · intro rest last a b run' different tableA tableB awakeA awakeB same yieldsA yieldsB
    rw [refines.inTable_iff] at tableA tableB
    rw [refines.state_eq] at awakeA awakeB
    rw [refines.priority_eq] at same
    have rivals : spec.processes.Rivals a b :=
      ⟨different, ⟨tableA, tableB⟩, ⟨awakeA, awakeB⟩, same⟩
    rcases rivals.behind_total sound with behind | behind
    · exact (standing.in_turn rivals behind run' yieldsA yieldsB).tail
    · have turn := (standing.in_turn rivals.symm behind run' yieldsB yieldsA).tail
      rw [List.tail_cons] at turn
      simpa only [InTurn, or_comm] using turn

/-- Whether this is a `yield_syscall`. -/
def Action.isYield : Action → Bool
  | .yield _ _ => true
  | _ => false

theorem onlyYields_of_isYield {trace : List (Transition (Machine A) Action)}
    (yields : ∀ transition ∈ trace, transition.action.isYield = true) (p : Addr) :
    OnlyYields p trace := by
  intro transition present _
  have yield := yields transition present
  cases action : transition.action with
  | yield ebp esp => exact ⟨ebp, esp, rfl⟩
  | _ => simp [Action.isYield, action] at yield

theorem dispatch_order_of_two : ∃ trace machine rest last kernel,
    (processSystem heapAllocator.toAllocator).record bootMachine
      [.createProcess 0 1 1 2, .createProcess 0 1 1 2, .start 0] = some (trace, machine) ∧
    (processSystem heapAllocator.toAllocator).record machine
      [.yield 0 0, .yield 0 0, .yield 0 0] = some (rest, last) ∧
    machine.scheduleCall (.yield 0 0) = some kernel ∧
    kernel.Picks (machine.kernel :: moments trace) 20488 ∧
    InTurn 8 20488 (rest.filterMap dispatched) := by
  have runs : ((processSystem heapAllocator.toAllocator).record bootMachine
      [.createProcess 0 1 1 2, .createProcess 0 1 1 2, .start 0]).any fun run =>
        (((processSystem heapAllocator.toAllocator).record run.2
          [.yield 0 0, .yield 0 0, .yield 0 0]).any fun later =>
            decide (∀ t ∈ later.1, t.action.isYield = true)) &&
        ((run.2.scheduleCall (.yield 0 0)).isSome &&
          ((run.2.step heapAllocator.toAllocator (.yield 0 0)).any fun next =>
            decide (dispatched ⟨run.2, .yield 0 0, next⟩ = some 20488))) &&
        decide (Chain run.2.kernel.pcb.nextInTable run.2.kernel.processTableHead [20488, 8] none ∧
          (run.2.kernel.pcb 8).state = .running ∧ (run.2.kernel.pcb 20488).state = .ready ∧
          (run.2.kernel.pcb 8).priority = (run.2.kernel.pcb 20488).priority) := by
    decide +kernel
  obtain ⟨⟨trace, machine⟩, recorded, checked⟩ := (Option.any_eq_true ..).mp runs
  simp only [Bool.and_eq_true] at checked
  obtain ⟨⟨yielding, called, picked⟩, facts⟩ := checked
  obtain ⟨⟨rest, last⟩, recorded', yields⟩ := (Option.any_eq_true ..).mp yielding
  obtain ⟨next, taken, given⟩ := (Option.any_eq_true ..).mp picked
  obtain ⟨kernel, call⟩ := Option.isSome_iff_exists.mp called
  obtain ⟨table, running, ready, same⟩ := of_decide_eq_true facts
  have law := dispatch_order heapAllocator bootMachine_initial (System.trace_of_record recorded)
  have only := onlyYields_of_isYield (of_decide_eq_true yields)
  refine ⟨trace, machine, rest, last, kernel, recorded, recorded', call,
    law.1 _ next kernel 20488 taken call (of_decide_eq_true given), ?_⟩
  exact law.2 rest last 8 20488 (System.trace_of_record recorded') (by decide)
    ⟨_, table, by decide⟩ ⟨_, table, by decide⟩ (Or.inr running) (Or.inl ready) same (only 8)
    (only 20488)

end ApnaOS.Process
