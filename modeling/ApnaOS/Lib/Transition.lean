import Mathlib.Data.List.Basic

/-!
# Transition systems, traces and invariants

A system has initial states and a partial step function; a disabled action has
no successor.  A trace records every transition, so a statement can speak about
the state before a step, the action taken and every state reached.
-/

set_option autoImplicit false

namespace ApnaOS.Lib

universe u v

structure System (State : Type u) (Action : Type v) where
  initial : State → Prop
  step : State → Action → Option State

structure Transition (State : Type u) (Action : Type v) where
  before : State
  action : Action
  after : State

namespace System

variable {State : Type u} {Action : Type v}

inductive Trace (system : System State Action) :
    State → List (Transition State Action) → State → Prop where
  | nil (state : State) : Trace system state [] state
  | cons {first middle last : State} {action : Action}
      {rest : List (Transition State Action)}
      (taken : system.step first action = some middle)
      (tail : Trace system middle rest last) :
      Trace system first (⟨first, action, middle⟩ :: rest) last

def Reachable (system : System State Action) (state : State) : Prop :=
  ∃ first trace, system.initial first ∧ system.Trace first trace state

theorem Trace.append {system : System State Action} {first middle last : State}
    {before after : List (Transition State Action)}
    (head : system.Trace first before middle) (tail : system.Trace middle after last) :
    system.Trace first (before ++ after) last := by
  induction head with
  | nil state => exact tail
  | cons taken _ ih => exact .cons taken (ih tail)

def record (system : System State Action) (state : State) :
    List Action → Option (List (Transition State Action) × State)
  | [] => some ([], state)
  | action :: rest =>
      (system.step state action).bind fun next =>
        (system.record next rest).map fun (trace, last) =>
          (⟨state, action, next⟩ :: trace, last)

theorem trace_of_record {system : System State Action} {actions : List Action} {first last : State}
    {trace : List (Transition State Action)}
    (recorded : system.record first actions = some (trace, last)) :
    system.Trace first trace last := by
  induction actions generalizing first trace with
  | nil =>
      simp only [record, Option.some.injEq, Prod.mk.injEq] at recorded
      rw [← recorded.1, ← recorded.2]
      exact .nil first
  | cons action rest ih =>
      obtain ⟨next, taken, recorded⟩ := Option.bind_eq_some_iff.mp recorded
      obtain ⟨⟨tail, last'⟩, recorded_tail, same⟩ := Option.map_eq_some_iff.mp recorded
      simp only [Prod.mk.injEq] at same
      rw [← same.1]
      exact .cons taken (ih (same.2 ▸ recorded_tail))

theorem actions_of_record {system : System State Action} {actions : List Action}
    {first last : State} {trace : List (Transition State Action)}
    (recorded : system.record first actions = some (trace, last)) :
    trace.map Transition.action = actions := by
  induction actions generalizing first trace with
  | nil =>
      cases recorded
      rfl
  | cons action rest ih =>
      obtain ⟨next, _, recorded⟩ := Option.bind_eq_some_iff.mp recorded
      obtain ⟨⟨tail, last'⟩, recorded_tail, same⟩ := Option.map_eq_some_iff.mp recorded
      cases same
      exact congrArg (action :: ·) (ih recorded_tail)

theorem reachable_initial {system : System State Action} {state : State}
    (initial : system.initial state) : system.Reachable state :=
  ⟨state, [], initial, .nil state⟩

theorem Reachable.step {system : System State Action} {state next : State} {action : Action}
    (reachable : system.Reachable state) (taken : system.step state action = some next) :
    system.Reachable next := by
  obtain ⟨first, trace, initial, run⟩ := reachable
  exact ⟨first, trace ++ [⟨state, action, next⟩], initial,
    run.append (.cons taken (.nil next))⟩

theorem Trace.follows {system : System State Action} {Invariant : State → Prop}
    {Allowed : Transition State Action → Prop}
    (preserved : ∀ state action next, Invariant state → system.step state action = some next →
      Allowed ⟨state, action, next⟩ → Invariant next)
    {first last : State} {trace : List (Transition State Action)}
    (run : system.Trace first trace last) (allowed : ∀ transition ∈ trace, Allowed transition)
    (holds : Invariant first) : Invariant last := by
  induction run with
  | nil state => exact holds
  | cons taken _ ih =>
      have here := allowed _ List.mem_cons_self
      have later : ∀ transition ∈ _, Allowed transition :=
        fun transition present => allowed transition (List.mem_cons_of_mem _ present)
      exact ih later (preserved _ _ _ holds taken here)

theorem Trace.preserves {system : System State Action} {Invariant : State → Prop}
    (preserved : ∀ state action next, Invariant state →
      system.step state action = some next → Invariant next)
    {first last : State} {trace : List (Transition State Action)}
    (run : system.Trace first trace last) (holds : Invariant first) : Invariant last :=
  run.follows (fun state action next invariant taken _ => preserved state action next invariant taken)
    (fun _ _ => trivial) holds

theorem Reachable.invariant {system : System State Action} {Invariant : State → Prop}
    (base : ∀ state, system.initial state → Invariant state)
    (preserved : ∀ state action next, Invariant state →
      system.step state action = some next → Invariant next)
    {state : State} (reachable : system.Reachable state) : Invariant state := by
  obtain ⟨first, trace, initial, run⟩ := reachable
  exact run.preserves preserved (base first initial)

/-- If, from every state where `Invariant` holds, an allowed step is good exactly when it
meets `Meets`, and a good step keeps `Invariant`, then all steps of a trace of allowed
steps are good exactly when all of them meet `Meets`. -/
theorem Trace.allowed_meets_iff {system : System State Action}
    {first last : State} {trace : List (Transition State Action)}
    (run : system.Trace first trace last) (Invariant : State → Prop)
    (Allowed Good : Transition State Action → Prop) (Meets : State → Action → Prop)
    (preserved : ∀ state action next, Invariant state → system.step state action = some next →
      Allowed ⟨state, action, next⟩ → (Good ⟨state, action, next⟩ ↔ Meets state action) ∧
        (Good ⟨state, action, next⟩ → Invariant next))
    (holds : Invariant first) (allowed : ∀ transition ∈ trace, Allowed transition) :
    (∀ transition ∈ trace, Good transition) ↔
      ∀ transition ∈ trace, Meets transition.before transition.action := by
  induction run with
  | nil state => simp
  | cons taken _ ih =>
      rw [List.forall_mem_cons] at allowed
      obtain ⟨exact_step, kept⟩ := preserved _ _ _ holds taken allowed.1
      simp only [List.mem_cons, forall_eq_or_imp]
      constructor
      · rintro ⟨here, later⟩
        exact ⟨exact_step.mp here, (ih (kept here) allowed.2).mp later⟩
      · rintro ⟨meets, later⟩
        have here := exact_step.mpr meets
        exact ⟨here, (ih (kept here) allowed.2).mpr later⟩

theorem Trace.meets_iff {system : System State Action}
    {first last : State} {trace : List (Transition State Action)}
    (run : system.Trace first trace last) (Invariant : State → Prop)
    (Good : Transition State Action → Prop) (Meets : State → Action → Prop)
    (preserved : ∀ state action next, Invariant state → system.step state action = some next →
      (Good ⟨state, action, next⟩ ↔ Meets state action) ∧
        (Good ⟨state, action, next⟩ → Invariant next))
    (holds : Invariant first) :
    (∀ transition ∈ trace, Good transition) ↔
      ∀ transition ∈ trace, Meets transition.before transition.action :=
  run.allowed_meets_iff Invariant (fun _ => True) Good Meets
    (fun state action next invariant taken _ => preserved state action next invariant taken)
    holds fun _ _ => trivial

theorem Trace.good_iff {system : System State Action}
    {first last : State} {trace : List (Transition State Action)}
    (run : system.Trace first trace last) (Invariant Good : State → Prop)
    (Meets : State → Action → Prop)
    (preserved : ∀ state action next, Invariant state → Good state →
      system.step state action = some next →
        (Good next ↔ Meets state action) ∧ (Good next → Invariant next))
    (holds : Invariant first) (good : Good first) :
    (∀ transition ∈ trace, Good transition.after) ↔
      ∀ transition ∈ trace, Meets transition.before transition.action := by
  refine run.meets_iff (fun state => Invariant state ∧ Good state)
    (fun transition => Good transition.after) Meets ?_ ⟨holds, good⟩
  intro state action next both taken
  obtain ⟨exact_step, kept⟩ := preserved state action next both.1 both.2 taken
  exact ⟨exact_step, fun here => ⟨kept here, here⟩⟩

end System

end ApnaOS.Lib
