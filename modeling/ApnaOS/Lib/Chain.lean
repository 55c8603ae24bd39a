import Mathlib.Data.List.Basic
import Mathlib.Logic.Function.Basic

/-!
# Chains of pointers

A singly linked list as it lies in memory: `next` gives the pointer stored with
each element and `none` is the NULL pointer.  Splicing an element in or out
changes one pointer, and nothing is said about elements outside the chain.
-/

set_option autoImplicit false

namespace ApnaOS.Lib

open Function (update update_self update_of_ne)

universe u

variable {α : Type u}

/-- Following `next` from `start` meets exactly `items` and then `stop`. -/
def Chain (next : α → Option α) : (start : Option α) → List α → (stop : Option α) → Prop
  | start, [], stop => start = stop
  | start, x :: rest, stop => start = some x ∧ Chain next (next x) rest stop

instance decidableChain [DecidableEq α] (next : α → Option α) :
    (start : Option α) → (items : List α) → (stop : Option α) →
      Decidable (Chain next start items stop)
  | start, [], stop => inferInstanceAs (Decidable (start = stop))
  | start, x :: rest, stop =>
      have := decidableChain next (next x) rest stop
      inferInstanceAs (Decidable (start = some x ∧ Chain next (next x) rest stop))

namespace Chain

variable {next next' : α → Option α} {start stop : Option α} {items front back : List α}

theorem congr (chain : Chain next start items stop) (same : ∀ x ∈ items, next' x = next x) :
    Chain next' start items stop := by
  induction items generalizing start with
  | nil => exact chain
  | cons x rest ih =>
      obtain ⟨here, below⟩ := chain
      refine ⟨here, ?_⟩
      rw [same x List.mem_cons_self]
      exact ih below fun y member => same y (List.mem_cons_of_mem x member)

theorem append : Chain next start (front ++ back) stop ↔
    ∃ middle, Chain next start front middle ∧ Chain next middle back stop := by
  induction front generalizing start with
  | nil =>
      constructor
      · intro chain
        exact ⟨start, rfl, chain⟩
      · intro split
        obtain ⟨middle, same, chain⟩ := split
        cases same
        exact chain
  | cons x rest ih =>
      constructor
      · intro chain
        obtain ⟨middle, left, right⟩ := ih.mp chain.2
        exact ⟨middle, ⟨chain.1, left⟩, right⟩
      · intro split
        obtain ⟨middle, left, right⟩ := split
        exact ⟨left.1, ih.mpr ⟨middle, left.2, right⟩⟩

theorem unique {items' : List α} (chain : Chain next start items none)
    (chain' : Chain next start items' none) : items = items' := by
  induction items generalizing start items' with
  | nil =>
      cases items' with
      | nil => rfl
      | cons y rest =>
          have clash := chain.symm.trans chain'.1
          cases clash
  | cons x rest ih =>
      cases items' with
      | nil =>
          have clash := chain'.symm.trans chain.1
          cases clash
      | cons y rest' =>
          have same : x = y := Option.some.inj (chain.1.symm.trans chain'.1)
          rw [← same] at chain' ⊢
          rw [ih chain.2 chain'.2]

theorem start_eq (chain : Chain next start items none) : start = items.head? := by
  cases items with
  | nil => exact chain
  | cons x rest => exact chain.1

theorem next_eq {x : α} (chain : Chain next start (front ++ x :: back) none) :
    next x = back.head? := by
  obtain ⟨middle, _, rest⟩ := append.mp chain
  exact rest.2.start_eq

variable [DecidableEq α]

theorem update_outside (chain : Chain next start items stop) {x : α} (outside : x ∉ items)
    (p : Option α) : Chain (update next x p) start items stop := by
  apply chain.congr
  intro y member
  rw [update_of_ne]
  intro same
  exact outside (same ▸ member)

theorem insert_after {x new : α} (chain : Chain next start (front ++ x :: back) none)
    (nodup : (front ++ x :: back).Nodup) (fresh : new ∉ front ++ x :: back) :
    Chain (update (update next new (next x)) x (some new)) start
      (front ++ x :: new :: back) none := by
  obtain ⟨left, right, across⟩ := List.nodup_append.mp nodup
  have x_front : x ∉ front := fun member => across x member x List.mem_cons_self rfl
  have x_back : x ∉ back := (List.nodup_cons.mp right).1
  have new_front : new ∉ front := fun member => fresh (List.mem_append_left _ member)
  have new_rest : new ∉ x :: back := fun member => fresh (List.mem_append_right _ member)
  have different : new ≠ x := fun same => new_rest (same ▸ List.mem_cons_self)
  have new_back : new ∉ back := fun member => new_rest (List.mem_cons_of_mem x member)
  obtain ⟨middle, before, here, after⟩ := append.mp chain
  refine append.mpr ⟨middle, (before.update_outside new_front _).update_outside x_front _, here,
    ?_, ?_⟩
  · rw [update_self]
  · rw [update_of_ne different, update_self]
    exact (after.update_outside new_back _).update_outside x_back _

theorem remove_after {x gone : α} (chain : Chain next start (front ++ x :: gone :: back) none)
    (nodup : (front ++ x :: gone :: back).Nodup) :
    Chain (update next x (next gone)) start (front ++ x :: back) none := by
  obtain ⟨left, right, across⟩ := List.nodup_append.mp nodup
  have x_front : x ∉ front := fun member => across x member x List.mem_cons_self rfl
  have x_back : x ∉ back :=
    fun member => (List.nodup_cons.mp right).1 (List.mem_cons_of_mem gone member)
  obtain ⟨middle, before, here, after⟩ := append.mp chain
  refine append.mpr ⟨middle, before.update_outside x_front _, here, ?_⟩
  rw [update_self]
  exact after.2.update_outside x_back _

end Chain

/-! ## Searches -/

def inspected (test : α → Bool) : List α → List α
  | [] => []
  | a :: rest => if test a then [a] else a :: inspected test rest

theorem mem_inspected_iff (test : α → Bool) (items : List α) (a : α) :
    a ∈ inspected test items ↔
      ∃ front back, items = front ++ a :: back ∧ ∀ b ∈ front, test b = false := by
  induction items with
  | nil => simp [inspected]
  | cons first rest ih =>
      constructor
      · intro member
        rw [inspected] at member
        split at member
        · rw [List.mem_singleton.mp member]
          exact ⟨[], rest, rfl, fun b absent => absurd absent List.not_mem_nil⟩
        · rename_i passed
          rcases List.mem_cons.mp member with rfl | later
          · exact ⟨[], rest, rfl, fun b absent => absurd absent List.not_mem_nil⟩
          · obtain ⟨front, back, rfl, before⟩ := ih.mp later
            exact ⟨first :: front, back, rfl,
              List.forall_mem_cons.mpr ⟨Bool.eq_false_iff.mpr passed, before⟩⟩
      · rintro ⟨front, back, split, before⟩
        cases front with
        | nil =>
            obtain ⟨rfl, rfl⟩ := List.cons.inj split
            rw [inspected]
            split <;> exact List.mem_cons_self
        | cons b front =>
            obtain ⟨rfl, rfl⟩ := List.cons.inj split
            obtain ⟨passed, before⟩ := List.forall_mem_cons.mp before
            rw [inspected, if_neg (Bool.eq_false_iff.mp passed)]
            exact List.mem_cons_of_mem first (ih.mpr ⟨front, back, rfl, before⟩)

end ApnaOS.Lib
