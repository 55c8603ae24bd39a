import Mathlib.Data.Nat.Digits.Defs

/-!
# Numbers of a fixed width

The lowest digits of a number, as many as asked for, zeros included.
-/

set_option autoImplicit false

namespace ApnaOS.Lib

/-- The `width` lowest digits, the lowest first. -/
def fixedDigits (base : Nat) : (width n : Nat) → List Nat
  | 0, _ => []
  | width + 1, n => n % base :: fixedDigits base width (n / base)

@[simp] theorem length_fixedDigits (base width n : Nat) :
    (fixedDigits base width n).length = width := by
  induction width generalizing n with
  | zero => rfl
  | succ width ih => rw [fixedDigits, List.length_cons, ih]

theorem fixedDigits_lt {base : Nat} (positive : 0 < base) {width n d : Nat}
    (member : d ∈ fixedDigits base width n) : d < base := by
  induction width generalizing n with
  | zero => exact absurd member List.not_mem_nil
  | succ width ih =>
      rcases List.mem_cons.mp member with rfl | later
      · exact Nat.mod_lt n positive
      · exact ih later

theorem ofDigits_fixedDigits {base width n : Nat} (fits : n < base ^ width) :
    Nat.ofDigits base (fixedDigits base width n) = n := by
  induction width generalizing n with
  | zero =>
      rw [Nat.pow_zero] at fits
      have zero : n = 0 := by omega
      rw [zero]
      rfl
  | succ width ih =>
      have fewer : n / base < base ^ width := by
        apply Nat.div_lt_of_lt_mul
        rwa [Nat.pow_succ, Nat.mul_comm] at fits
      rw [fixedDigits, Nat.ofDigits_cons, ih fewer]
      exact Nat.mod_add_div n base

theorem fixedDigits_eq_map (base width n : Nat) :
    fixedDigits base width n = (List.range width).map fun i => n / base ^ i % base := by
  induction width generalizing n with
  | zero => rfl
  | succ width ih =>
      have first : n / base ^ 0 % base = n % base := by rw [Nat.pow_zero, Nat.div_one]
      rw [fixedDigits, ih, List.range_succ_eq_map, List.map_cons, List.map_map, first]
      apply congrArg (List.cons _)
      apply List.map_congr_left
      intro i _
      rw [Function.comp_apply, Nat.succ_eq_add_one, Nat.div_div_eq_div_mul, Nat.pow_succ,
        Nat.mul_comm base]

end ApnaOS.Lib
