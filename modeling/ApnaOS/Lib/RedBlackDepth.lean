import Mathlib.Tactic.Ring
import ApnaOS.Lib.RedBlack

/-!
# The depth of a red-black tree

A black height forces many elements, and at most every other node on a path is red.
-/

set_option autoImplicit false

namespace ApnaOS.Lib.Shape

universe u

variable {α : Type u}

inductive Path : Shape α → List α → Prop where
  | leaf : Path leaf []
  | left {red : Bool} {left right : Shape α} {x : α} {rest : List α} (below : Path left rest) :
      Path (node red left x right) (x :: rest)
  | right {red : Bool} {left right : Shape α} {x : α} {rest : List α} (below : Path right rest) :
      Path (node red left x right) (x :: rest)

theorem Balanced.two_pow_le {tree : Shape α} {n : Nat} (balanced : Balanced tree n) :
    2 ^ n ≤ tree.elements.length + 1 := by
  induction balanced with
  | leaf => exact Nat.le_refl 1
  | red _ _ _ _ ihl ihr =>
      rw [elements, List.length_append, List.length_cons]
      omega
  | black _ _ ihl ihr =>
      rw [elements, List.length_append, List.length_cons, Nat.pow_succ]
      omega

theorem Balanced.height_le {tree : Shape α} {n : Nat} (balanced : Balanced tree n) :
    n ≤ (tree.elements.length + 1).log2 :=
  (Nat.le_log2 (Nat.succ_ne_zero _)).mpr balanced.two_pow_le

def redTop (tree : Shape α) : Nat := if tree.isRed then 1 else 0

theorem redTop_le (tree : Shape α) : tree.redTop ≤ 1 := by
  rw [redTop]
  split
  · exact Nat.le_refl 1
  · exact Nat.zero_le 1

theorem redTop_of_black {tree : Shape α} (black : tree.isRed = false) : tree.redTop = 0 := by
  rw [redTop, black]
  rfl

/-- Two nodes for each black one, and one more for a red top. -/
theorem Balanced.path_length {tree : Shape α} {n : Nat} (balanced : Balanced tree n)
    {nodes : List α} (path : Path tree nodes) : nodes.length ≤ 2 * n + tree.redTop := by
  induction balanced generalizing nodes with
  | leaf =>
      cases path
      exact Nat.le_refl 0
  | @red left right x n _ _ black black' ihl ihr =>
      have here : (node true left x right).redTop = 1 := rfl
      cases path with
      | left below =>
          have rest := ihl below
          rw [redTop_of_black black] at rest
          rw [here, List.length_cons]
          omega
      | right below =>
          have rest := ihr below
          rw [redTop_of_black black'] at rest
          rw [here, List.length_cons]
          omega
  | @black left right x n _ _ ihl ihr =>
      cases path with
      | left below =>
          have rest := ihl below
          have one := left.redTop_le
          rw [List.length_cons]
          omega
      | right below =>
          have rest := ihr below
          have one := right.redTop_le
          rw [List.length_cons]
          omega

theorem Valid.path_length {tree : Shape α} (valid : tree.Valid) {nodes : List α}
    (path : Path tree nodes) : nodes.length ≤ 2 * (tree.elements.length + 1).log2 := by
  obtain ⟨black, n, balanced⟩ := valid
  have bound := balanced.path_length path
  have height := balanced.height_le
  rw [redTop_of_black black] at bound
  omega

end ApnaOS.Lib.Shape
