import ApnaOS.Shell.Numbers

/-!
# Unsigned decimal numbers

`int_to_dec` collects the digits of a `uint32_t` in an array of sixteen bytes and copies them
to the buffer in the opposite order.
-/

set_option autoImplicit false

namespace ApnaOS.Numbers

open ApnaOS.Lib
open ApnaOS.StringOps (Byte Bytes)
open Function (update update_of_ne)

/-! ## The code -/

/-- `while(num > 0 && pos < 15)` with `remaining` steps to 15. -/
def intToDecDigits : (remaining : Nat) → UInt32 → Nat → Bytes → Nat × Bytes
  | 0, _, pos, temp => (pos, temp)
  | remaining + 1, num, pos, temp =>
      if 0 < num then
        intToDecDigits remaining (num / 10) (pos + 1) (update temp pos (48 + num % 10).toUInt8)
      else (pos, temp)

/-- `for(i = 0; i < pos; i++) buffer[i] = temp[pos - i - 1];` -/
def intToDecCopy (temp : Bytes) (pos : Nat) (buffer : Bytes) : Bytes :=
  (List.range pos).foldl (fun buffer i => update buffer i (temp (pos - i - 1))) buffer

/-- `temp` holds what was on the stack. -/
def intToDec (num : UInt32) (buffer temp : Bytes) : Bytes :=
  if num = 0 then update (update buffer 0 48) 1 0
  else
    let (pos, temp) := intToDecDigits 15 num 0 temp
    update (intToDecCopy temp pos buffer) pos 0

/-! ## The loops -/

theorem digit_toUInt8 (num : UInt32) :
    (48 + num % 10).toUInt8 = digitChar (num.toNat % 10) := by
  apply UInt8.toNat_inj.mp
  have small : num.toNat % 10 < 10 := Nat.mod_lt _ (by decide)
  rw [digitChar, UInt32.toNat_toUInt8, UInt32.toNat_add, UInt32.toNat_mod,
    UInt8.toNat_ofNat']
  show (48 + num.toNat % 10) % 2 ^ 32 % 2 ^ 8 = (48 + num.toNat % 10) % 2 ^ 8
  omega

/-- The loop is not cut off when the digits fit into the steps that are left. -/
theorem intToDecDigits_slice {remaining : Nat} {num : UInt32} {temp : Bytes}
    {written : List Byte} (slice : HasSlice temp 0 written)
    (fits : num.toNat < 10 ^ remaining) :
    ∃ temp', intToDecDigits remaining num written.length temp =
        ((written ++ (Nat.digits 10 num.toNat).map digitChar).length, temp') ∧
      HasSlice temp' 0 (written ++ (Nat.digits 10 num.toNat).map digitChar) := by
  induction remaining generalizing num temp written with
  | zero =>
      have zero : num.toNat = 0 := by
        rw [Nat.pow_zero] at fits
        omega
      rw [zero, Nat.digits_zero, List.map_nil, List.append_nil]
      exact ⟨temp, rfl, slice⟩
  | succ remaining ih =>
      rw [intToDecDigits]
      by_cases more : 0 < num
      · have positive : 0 < num.toNat := UInt32.lt_iff_toNat_lt.mp more
        have quotient : (num / 10).toNat = num.toNat / 10 := UInt32.toNat_div ..
        have fewer : (num / 10).toNat < 10 ^ remaining := by
          rw [Nat.pow_succ] at fits
          rw [quotient]
          omega
        have stored := slice.push (digitChar (num.toNat % 10))
        rw [Nat.zero_add] at stored
        have call := ih stored fewer
        rw [quotient, List.append_assoc, List.length_append, List.length_singleton,
          List.singleton_append] at call
        rw [if_pos more, digit_toUInt8, Nat.digits_def' (by decide) positive, List.map_cons]
        exact call
      · have zero : num.toNat = 0 := by
          have bound := fun positive => more (UInt32.lt_iff_toNat_lt.mpr positive)
          exact Nat.eq_zero_of_not_pos bound
        rw [if_neg more, zero, Nat.digits_zero, List.map_nil, List.append_nil]
        exact ⟨temp, rfl, slice⟩

theorem intToDecDigits_keeps {remaining digits : Nat} {num : UInt32} {pos i : Nat} {temp : Bytes}
    (fits : num.toNat < 10 ^ digits) (behind : pos + digits ≤ i) :
    (intToDecDigits remaining num pos temp).2 i = temp i ∧
      (intToDecDigits remaining num pos temp).1 ≤ pos + digits := by
  induction remaining generalizing num pos temp digits with
  | zero => exact ⟨rfl, Nat.le_add_right _ _⟩
  | succ remaining ih =>
      rw [intToDecDigits]
      by_cases more : 0 < num
      · have positive : 0 < num.toNat := UInt32.lt_iff_toNat_lt.mp more
        cases digits with
        | zero =>
            rw [Nat.pow_zero] at fits
            omega
        | succ digits =>
            have quotient : (num / 10).toNat = num.toNat / 10 := UInt32.toNat_div ..
            have fewer : (num / 10).toNat < 10 ^ digits := by
              rw [Nat.pow_succ] at fits
              rw [quotient]
              omega
            obtain ⟨kept, count⟩ := @ih digits (num / 10) (pos + 1)
              (update temp pos (48 + num % 10).toUInt8) fewer (by omega)
            rw [if_pos more]
            refine ⟨kept.trans (update_of_ne ?_ _ temp), by omega⟩
            omega
      · rw [if_neg more]
        exact ⟨rfl, Nat.le_add_right _ _⟩

theorem intToDecCopy_keeps (temp : Bytes) {pos i : Nat} (buffer : Bytes) (behind : pos ≤ i) :
    intToDecCopy temp pos buffer i = buffer i := by
  have kept : ∀ rounds, rounds ≤ i → (List.range rounds).foldl
      (fun buffer i => update buffer i (temp (pos - i - 1))) buffer i = buffer i := by
    intro rounds within
    induction rounds with
    | zero => rfl
    | succ rounds ih =>
        rw [List.range_succ, List.foldl_append]
        exact (update_of_ne (by omega) _ _).trans (ih (by omega))
  exact kept pos behind

theorem intToDec_keeps (num : UInt32) (buffer temp : Bytes) {i : Nat} (behind : 11 ≤ i) :
    intToDec num buffer temp i = buffer i := by
  rw [intToDec]
  by_cases zero : num = 0
  · rw [if_pos zero, update_of_ne (by omega), update_of_ne (by omega)]
  · have fits : num.toNat < 10 ^ 10 := Nat.lt_trans num.toNat_lt (by decide)
    obtain ⟨_, count⟩ := @intToDecDigits_keeps 15 10 num 0 i temp fits (by omega)
    rw [if_neg zero]
    generalize intToDecDigits 15 num 0 temp = taken at count ⊢
    exact (update_of_ne (by omega) _ _).trans (intToDecCopy_keeps _ buffer (by omega))

theorem intToDecCopy_rounds {temp : Bytes} {items : List Byte} (slice : HasSlice temp 0 items)
    (buffer : Bytes) {rounds : Nat} (within : rounds ≤ items.length) :
    HasSlice ((List.range rounds).foldl
      (fun buffer i => update buffer i (temp (items.length - i - 1))) buffer) 0
      (items.reverse.take rounds) := by
  induction rounds with
  | zero => exact trivial
  | succ rounds ih =>
      have inside : items.length - 1 - rounds < items.length := by omega
      have there := HasSlice.iff_forall.mp slice (items.length - 1 - rounds) inside
      have place : 0 + (items.length - 1 - rounds) = items.length - rounds - 1 := by omega
      have inside' : rounds < items.reverse.length := by
        rw [List.length_reverse]
        omega
      have stored := (ih (by omega)).push (items.reverse[rounds])
      rw [List.length_take, Nat.min_eq_left (Nat.le_of_lt inside'), Nat.zero_add,
        ← List.take_succ_eq_append_getElem inside', List.getElem_reverse, ← there, place] at stored
      rw [List.range_succ, List.foldl_append]
      exact stored

theorem intToDecCopy_slice {temp : Bytes} {items : List Byte} (slice : HasSlice temp 0 items)
    (buffer : Bytes) : HasSlice (intToDecCopy temp items.length buffer) 0 items.reverse := by
  have copied := intToDecCopy_rounds slice buffer (Nat.le_refl _)
  rwa [← List.length_reverse, List.take_length, List.length_reverse] at copied

theorem decimal_natCast (m : Nat) : decimal m = (lowDigits m).reverse.map digitChar := by
  have nonneg : ¬ (m : Int) < 0 := by omega
  rw [decimal, if_neg nonneg, List.nil_append, Int.natAbs_natCast]

theorem intToDec_text (num : UInt32) (buffer temp : Bytes) :
    EndsAt 0 (intToDec num buffer temp) 0 (decimal num.toNat) := by
  rw [intToDec, decimal_natCast]
  by_cases zero : num = 0
  · have empty : HasSlice buffer 0 [] := trivial
    have written : HasSlice (update buffer 0 48) 0 [48] := empty.push 48
    rw [if_pos zero, zero]
    exact EndsAt.of_slice written (by decide)
  · have nonzero : num.toNat ≠ 0 := fun same => zero (UInt32.toNat_inj.mp same)
    have fits : num.toNat < 10 ^ 15 := Nat.lt_trans num.toNat_lt (by decide)
    have none_taken : HasSlice temp 0 [] := trivial
    obtain ⟨temp', digits, slice⟩ := intToDecDigits_slice none_taken fits
    rw [List.nil_append] at digits slice
    rw [List.length_nil] at digits
    have copied := intToDecCopy_slice slice buffer
    rw [if_neg zero, digits, lowDigits_of_ne nonzero, List.map_reverse]
    have proper : (0 : Byte) ∉ ((Nat.digits 10 num.toNat).map digitChar).reverse := by
      rw [List.mem_reverse, ← lowDigits_of_ne nonzero]
      exact lowDigits_text_ne_zero
    have ends := EndsAt.of_slice copied proper
    rwa [Nat.zero_add, List.length_reverse] at ends

/-! ## The round trip -/

theorem atoi_digits {s : Bytes} {m fuel : Nat}
    (ends : EndsAt 0 s 0 ((lowDigits m).reverse.map digitChar))
    (enough : (lowDigits m).length < fuel) : atoi s fuel = some (Int32.ofNat m) := by
  have unsigned : s 0 ≠ 45 := by
    obtain ⟨d, rest, split, digit⟩ := lowDigits_reverse_head m
    rw [split, List.map_cons, EndsAt.cons_iff] at ends
    rw [ends.1]
    exact digitChar_ne_minus d digit
  rw [atoi, if_neg unsigned]
  simp only [atoiLoop_lowDigits ends enough, Option.bind_eq_bind, Option.bind_some]
  rw [Int32.one_mul]
  rfl

/-- `int_to_dec` writes the canonical text of every number, which is what `itoa` writes if the
number is an `int`, and `atoi` reads the 32 bits of the number back.  Of `temp` it uses ten bytes
and of the buffer eleven. -/
theorem int_to_dec_round_trip (num : UInt32) (buffer temp str : Bytes) :
    (∀ i, 10 ≤ i → (intToDecDigits 15 num 0 temp).2 i = temp i) ∧
    (∀ i, 11 ≤ i → intToDec num buffer temp i = buffer i) ∧
    ∃ enough, ∀ fuel, enough ≤ fuel →
      EndsAt 0 (intToDec num buffer temp) 0 (decimal num.toNat) ∧
      ∃ n, atoi (intToDec num buffer temp) fuel = some n ∧ n.toUInt32 = num ∧
        (num.toNat < 2147483648 → ∃ text, itoa n str fuel = some text ∧
          EndsAt 0 text 0 (decimal num.toNat)) := by
  have ends := intToDec_text num buffer temp
  have fits : num.toNat < 10 ^ 10 := Nat.lt_trans num.toNat_lt (by decide)
  refine ⟨fun i behind => (intToDecDigits_keeps fits (by omega)).1,
    fun i behind => intToDec_keeps num buffer temp behind, ?_⟩
  refine ⟨max (lowDigits num.toNat).length num.toNat + 1, ?_⟩
  intro fuel enough
  refine ⟨ends, Int32.ofNat num.toNat, ?_, ?_, ?_⟩
  · rw [decimal_natCast] at ends
    exact atoi_digits ends (by omega)
  · rw [Int32.toUInt32_ofNat', UInt32.ofNat_toNat]
  · intro small
    have value : (Int32.ofNat num.toNat).toInt = num.toNat := Int32.toInt_ofNat_of_lt small
    have negatable : Int32.ofNat num.toNat ≠ Int32.minValue := by
      intro same
      rw [same, Int32.toInt_minValue] at value
      omega
    rw [← value]
    exact itoa_decimal negatable str (by omega)

end ApnaOS.Numbers
