import Mathlib.Data.List.Basic
import Mathlib.Logic.Function.Basic

/-!
# Stores recorded as a list

A routine that stores into an array leaves a list of index and value behind, in the order of
the stores.  The array afterwards and the range of the stores are both read off the list.
-/

set_option autoImplicit false

namespace ApnaOS.Lib

open Function (update update_self update_of_ne)

universe u

variable {Value : Type u}

abbrev Writes (Value : Type u) := List (Nat × Value)

namespace Writes

def apply (array : Nat → Value) : Writes Value → Nat → Value
  | [] => array
  | (i, value) :: rest => apply (update array i value) rest

/-- Every store is below `bound`. -/
def Within (bound : Nat) (writes : Writes Value) : Prop :=
  ∀ write ∈ writes, write.1 < bound

instance (bound : Nat) (writes : Writes Value) : Decidable (Within bound writes) :=
  inferInstanceAs (Decidable (∀ write ∈ writes, write.1 < bound))

@[simp] theorem apply_nil (array : Nat → Value) : apply array [] = array := rfl

@[simp] theorem apply_cons (array : Nat → Value) (i : Nat) (value : Value) (rest : Writes Value) :
    apply array ((i, value) :: rest) = apply (update array i value) rest := rfl

@[simp] theorem apply_append (array : Nat → Value) (first second : Writes Value) :
    apply array (first ++ second) = apply (apply array first) second := by
  induction first generalizing array with
  | nil => rfl
  | cons write rest ih => exact ih (update array write.1 write.2)

theorem apply_untouched (array : Nat → Value) (writes : Writes Value) (k : Nat)
    (untouched : ∀ write ∈ writes, write.1 ≠ k) : apply array writes k = array k := by
  induction writes generalizing array with
  | nil => rfl
  | cons write rest ih =>
      obtain ⟨here, later⟩ := List.forall_mem_cons.mp untouched
      have step := ih (update array write.1 write.2) later
      rw [update_of_ne here.symm] at step
      exact step

theorem Within.nil (bound : Nat) : Within bound ([] : Writes Value) :=
  fun _ member => absurd member List.not_mem_nil

theorem within_cons {bound i : Nat} {value : Value} {rest : Writes Value} :
    Within bound ((i, value) :: rest) ↔ i < bound ∧ Within bound rest :=
  List.forall_mem_cons

theorem within_append {bound : Nat} {first second : Writes Value} :
    Within bound (first ++ second) ↔ Within bound first ∧ Within bound second :=
  List.forall_mem_append

theorem Within.beyond {bound k : Nat} {writes : Writes Value} (within : Within bound writes)
    (above : bound ≤ k) (array : Nat → Value) : apply array writes k = array k := by
  apply apply_untouched
  intro write member same
  have below := within write member
  omega

/-! ## Runs of consecutive indices -/

/-- `n` stores from `start` on, upwards. -/
def span (start : Nat) (values : Nat → Value) (n : Nat) : Writes Value :=
  (List.range n).map fun k => (start + k, values k)

@[simp] theorem length_span (start : Nat) (values : Nat → Value) (n : Nat) :
    (span start values n).length = n := by
  rw [span, List.length_map, List.length_range]

theorem span_congr (start n : Nat) {values values' : Nat → Value}
    (same : ∀ k, k < n → values k = values' k) : span start values n = span start values' n := by
  apply List.map_congr_left
  intro k member
  rw [same k (List.mem_range.mp member)]

theorem span_succ (start : Nat) (values : Nat → Value) (n : Nat) :
    span start values (n + 1) =
      (start, values 0) :: span (start + 1) (fun k => values (k + 1)) n := by
  rw [span, List.range_succ_eq_map, List.map_cons, List.map_map]
  refine congrArg _ (List.map_congr_left ?_)
  intro k _
  simp [Nat.add_assoc, Nat.add_comm 1 k]

theorem span_add (start : Nat) (values : Nat → Value) (n m : Nat) :
    span start values (n + m) =
      span start values n ++ span (start + n) (fun k => values (n + k)) m := by
  simp [span, List.range_add, Nat.add_assoc]

theorem within_span {bound start n : Nat} {values : Nat → Value} (positive : 0 < n) :
    Within bound (span start values n) ↔ start + n ≤ bound := by
  constructor
  · intro within
    have last := within (start + (n - 1), values (n - 1))
      (List.mem_map.mpr ⟨n - 1, List.mem_range.mpr (by omega), rfl⟩)
    simp only at last
    omega
  · intro fits write member
    obtain ⟨k, inside, rfl⟩ := List.mem_map.mp member
    have below := List.mem_range.mp inside
    show start + k < bound
    omega

end Writes

end ApnaOS.Lib
