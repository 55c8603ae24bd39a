import Mathlib.Data.List.Induction
import Mathlib.Data.Nat.Digits.Defs
import ApnaOS.Keyboard.StringOps
import ApnaOS.Lib.Slices

/-!
# Decimal numbers

`atoi`, `itoa` and `int_to_str` on an `int` of 32 bits that wraps around.
-/

set_option autoImplicit false

namespace ApnaOS.Numbers

open ApnaOS.Lib
open ApnaOS.StringOps (Byte Bytes)
open Function (update)

/-! ## The code -/

/-- An `int` stored in a `char`. -/
def toChar (n : Int32) : Byte := n.toInt8.toUInt8

/-- A `char` in an expression. -/
def promote (c : Byte) : Int32 := c.toInt8.toInt32

/-- `while (*s)` of `atoi` from offset `i`. -/
def atoiLoop (s : Bytes) : Nat → Nat → Int32 → Option Int32
  | 0, _, _ => none
  | fuel + 1, i, num =>
      if s i ≠ 0 then
        if 48 ≤ promote (s i) ∧ promote (s i) ≤ 57 then
          atoiLoop s fuel (i + 1) (num * 10 + (promote (s i) - 48))
        else pure num
      else pure num

def atoi (s : Bytes) (fuel : Nat) : Option Int32 := do
  let (sign, i) := if s 0 = 45 then ((-1 : Int32), 1) else (1, 0)
  let num ← atoiLoop s fuel i 0
  pure (sign * num)

/-- `do { str[i++] = n % 10 + '0'; n /= 10; } while(n > 0);` -/
def itoaDigits : Nat → Int32 → Nat → Bytes → Option (Nat × Bytes)
  | 0, _, _, _ => none
  | fuel + 1, n, i, str =>
      let str := update str i (toChar (n % 10 + 48))
      let n := n / 10
      if 0 < n then itoaDigits fuel n (i + 1) str else pure (i + 1, str)

def itoa (n : Int32) (str : Bytes) (fuel : Nat) : Option Bytes := do
  let sign := n
  let n := if sign < 0 then -n else n
  let (i, str) ← itoaDigits fuel n 0 str
  let (i, str) := if sign < 0 then (i + 1, update str i 45) else (i, str)
  pure (reverseLoop (update str i 0) i)

/-- `while(value){ temp[j++] = '0' + (value % 10); value /= 10; }` -/
def intToStrDigits : Nat → Int32 → Nat → Bytes → Option (Nat × Bytes)
  | 0, _, _, _ => none
  | fuel + 1, value, j, temp =>
      if value ≠ 0 then
        intToStrDigits fuel (value / 10) (j + 1) (update temp j (toChar (48 + value % 10)))
      else pure (j, temp)

/-- `while(j > 0){ buffer[i++] = temp[--j]; }` -/
def intToStrCopy (temp : Bytes) : Nat → Nat → Bytes → Nat × Bytes
  | 0, i, buffer => (i, buffer)
  | j + 1, i, buffer => intToStrCopy temp j (i + 1) (update buffer i (temp j))

/-- `temp` is what the array of the same name holds at first. -/
def intToStr (value : Int32) (buffer temp : Bytes) (fuel : Nat) : Option Bytes :=
  if value = 0 then pure (update (update buffer 0 48) 1 0)
  else do
    let (j, temp) ← intToStrDigits fuel value 0 temp
    let (i, buffer) := intToStrCopy temp j 0 buffer
    pure (update buffer i 0)

/-! ## Decimal text -/

def digitChar (d : Nat) : Byte := UInt8.ofNat (48 + d)

/-- The digits, the lowest first; zero has one digit. -/
def lowDigits (m : Nat) : List Nat := if m = 0 then [0] else Nat.digits 10 m

/-- The canonical decimal text: no leading zeros, and a sign for negative numbers only. -/
def decimal (n : Int) : List Byte :=
  (if n < 0 then [45] else []) ++ (lowDigits n.natAbs).reverse.map digitChar

example : decimal (-120) = [45, 49, 50, 48] := by decide

theorem lowDigits_of_ne {m : Nat} (nonzero : m ≠ 0) : lowDigits m = Nat.digits 10 m :=
  if_neg nonzero

theorem lowDigits_eq (m : Nat) :
    lowDigits m = m % 10 :: if m / 10 = 0 then [] else lowDigits (m / 10) := by
  by_cases zero : m = 0
  · rw [zero]
    rfl
  rw [lowDigits_of_ne zero, Nat.digits_def' (by decide) (Nat.pos_of_ne_zero zero)]
  by_cases last : m / 10 = 0
  · rw [if_pos last, last, Nat.digits_zero]
  · rw [if_neg last, lowDigits_of_ne last]

theorem lowDigits_lt {m d : Nat} (member : d ∈ lowDigits m) : d < 10 := by
  by_cases zero : m = 0
  · rw [lowDigits, if_pos zero, List.mem_singleton] at member
    omega
  · rw [lowDigits_of_ne zero] at member
    exact Nat.digits_lt_base (by decide) member

theorem ofDigits_lowDigits (m : Nat) : Nat.ofDigits 10 (lowDigits m) = m := by
  by_cases zero : m = 0
  · rw [zero]
    rfl
  · rw [lowDigits_of_ne zero, Nat.ofDigits_digits]

theorem foldl_reverse_digits (digits : List Nat) :
    digits.reverse.foldl (fun num d => num * 10 + d) 0 = Nat.ofDigits 10 digits := by
  rw [List.foldl_reverse]
  induction digits with
  | nil => rfl
  | cons d rest ih =>
      rw [List.foldr_cons, ih, Nat.ofDigits_cons, Nat.mul_comm, Nat.add_comm]

/-! ## Division by ten -/

theorem toInt_div_ten (n : Int32) : (n / 10).toInt = n.toInt.tdiv 10 := by
  rw [Int32.toInt_div_of_ne_right n 10 (by decide)]
  rfl

theorem toInt_mod_ten (n : Int32) : (n % 10).toInt = n.toInt.tmod 10 := by
  rw [Int32.toInt_mod]
  rfl

theorem eq_ofNat {n : Int32} {m : Nat} (value : n.toInt = m) : n = Int32.ofNat m := by
  rw [← Int32.ofInt_eq_ofNat, ← value, Int32.ofInt_toInt]

/-! ## atoi -/

theorem digitChar_ne_zero : ∀ d, d < 10 → digitChar d ≠ 0 := by decide

theorem digitChar_ne_minus : ∀ d, d < 10 → digitChar d ≠ 45 := by decide

theorem promote_digitChar : ∀ d, d < 10 → promote (digitChar d) - 48 = Int32.ofNat d := by decide

theorem digitChar_between : ∀ d, d < 10 →
    48 ≤ promote (digitChar d) ∧ promote (digitChar d) ≤ 57 := by decide

theorem atoiLoop_digits {s : Bytes} {i fuel : Nat} {digits : List Nat}
    (ends : EndsAt 0 s i (digits.map digitChar)) (small : ∀ d ∈ digits, d < 10)
    (enough : digits.length < fuel) (num : Nat) :
    atoiLoop s fuel i (Int32.ofNat num) =
      some (Int32.ofNat (digits.foldl (fun num d => num * 10 + d) num)) := by
  induction digits generalizing i fuel num with
  | nil =>
      cases fuel with
      | zero => exact absurd enough (Nat.not_lt_zero _)
      | succ fuel =>
          rw [atoiLoop, if_neg (not_not.mpr (EndsAt.nil_iff.mp ends))]
          rfl
  | cons d rest ih =>
      cases fuel with
      | zero => exact absurd enough (Nat.not_lt_zero _)
      | succ fuel =>
          obtain ⟨here, running, later⟩ := EndsAt.cons_iff.mp ends
          have digit : d < 10 := small d List.mem_cons_self
          have next : Int32.ofNat num * 10 + Int32.ofNat d = Int32.ofNat (num * 10 + d) := by
            rw [Int32.ofNat_add, Int32.ofNat_mul]
            rfl
          rw [atoiLoop, here, if_pos running, if_pos (digitChar_between d digit),
            promote_digitChar d digit, next, List.foldl_cons]
          apply ih later
          · exact fun d' member => small d' (List.mem_cons_of_mem d member)
          · exact Nat.lt_of_succ_lt_succ enough

theorem atoiLoop_lowDigits {s : Bytes} {i fuel m : Nat}
    (ends : EndsAt 0 s i ((lowDigits m).reverse.map digitChar))
    (enough : (lowDigits m).length < fuel) : atoiLoop s fuel i 0 = some (Int32.ofNat m) := by
  have read := atoiLoop_digits ends (fun d member => lowDigits_lt (List.mem_reverse.mp member))
    (by rwa [List.length_reverse]) 0
  rw [foldl_reverse_digits, ofDigits_lowDigits] at read
  exact read

theorem lowDigits_reverse_head (m : Nat) :
    ∃ d rest, (lowDigits m).reverse = d :: rest ∧ d < 10 := by
  cases found : (lowDigits m).reverse with
  | nil =>
      rw [List.reverse_eq_nil_iff, lowDigits_eq] at found
      exact absurd found (List.cons_ne_nil _ _)
  | cons d rest =>
      refine ⟨d, rest, rfl, lowDigits_lt (m := m) ?_⟩
      rw [← List.mem_reverse, found]
      exact List.mem_cons_self

theorem atoi_decimal {n : Int32} {s : Bytes} {fuel : Nat} (ends : EndsAt 0 s 0 (decimal n.toInt))
    (enough : (lowDigits n.toInt.natAbs).length < fuel) : atoi s fuel = some n := by
  by_cases negative : n.toInt < 0
  · rw [decimal, if_pos negative, List.singleton_append, EndsAt.cons_iff] at ends
    obtain ⟨sign, _, digits⟩ := ends
    have value : n = -Int32.ofNat n.toInt.natAbs := by
      rw [← Int32.ofInt_eq_ofNat, ← Int32.ofInt_neg, Int.ofNat_natAbs_of_nonpos negative.le,
        Int.neg_neg, Int32.ofInt_toInt]
    rw [atoi, if_pos sign]
    simp only [atoiLoop_lowDigits digits enough, Option.bind_eq_bind, Option.bind_some]
    rw [← Int32.neg_eq_neg_one_mul, ← value]
    rfl
  · rw [decimal, if_neg negative, List.nil_append] at ends
    have unsigned : s 0 ≠ 45 := by
      obtain ⟨d, rest, split, digit⟩ := lowDigits_reverse_head n.toInt.natAbs
      rw [split, List.map_cons, EndsAt.cons_iff] at ends
      rw [ends.1]
      exact digitChar_ne_minus d digit
    have value : n = Int32.ofNat n.toInt.natAbs :=
      eq_ofNat (Int.natAbs_of_nonneg (not_lt.mp negative)).symm
    rw [atoi, if_neg unsigned]
    simp only [atoiLoop_lowDigits ends enough, Option.bind_eq_bind, Option.bind_some]
    rw [Int32.one_mul, ← value]
    rfl

/-! ## itoa -/

theorem toChar_ofNat : ∀ d, d < 10 → toChar (Int32.ofNat d + 48) = digitChar d := by decide

theorem itoaDigits_slice {n : Int32} {m fuel : Nat} {str : Bytes} {written : List Byte}
    (slice : HasSlice str 0 written) (value : n.toInt = m) (enough : m < fuel) :
    ∃ str', itoaDigits fuel n written.length str =
        some ((written ++ (lowDigits m).map digitChar).length, str') ∧
      HasSlice str' 0 (written ++ (lowDigits m).map digitChar) := by
  induction fuel generalizing n m str written with
  | zero => exact absurd enough (Nat.not_lt_zero _)
  | succ fuel ih =>
      have digit : toChar (n % 10 + 48) = digitChar (m % 10) := by
        have rest : (n % 10).toInt = ((m % 10 : Nat) : Int) := by
          rw [toInt_mod_ten, value]
          rfl
        rw [eq_ofNat rest, toChar_ofNat _ (Nat.mod_lt m (by decide))]
      have quotient : (n / 10).toInt = ((m / 10 : Nat) : Int) := by
        rw [toInt_div_ten, value]
        rfl
      have stored := slice.push (digitChar (m % 10))
      rw [Nat.zero_add] at stored
      have goes_on : 0 < n / 10 ↔ m / 10 ≠ 0 := by
        rw [Int32.lt_iff_toInt_lt, quotient, Int32.toInt_zero]
        omega
      rw [itoaDigits, digit, lowDigits_eq, List.map_cons]
      by_cases last : m / 10 = 0
      · rw [if_pos last, if_neg (fun more => goes_on.mp more last), List.map_nil,
          List.length_append]
        exact ⟨_, rfl, stored⟩
      · have call := ih stored quotient (by omega)
        rw [List.append_assoc, List.length_append, List.length_singleton,
          List.singleton_append] at call
        rw [if_neg last, if_pos (goes_on.mpr last)]
        exact call

theorem decimal_eq_reverse (n : Int) :
    ((lowDigits n.natAbs).map digitChar ++ if n < 0 then [45] else []).reverse = decimal n := by
  rw [List.reverse_append, decimal, List.map_reverse]
  split <;> rfl

theorem lowDigits_text_ne_zero {m : Nat} : (0 : Byte) ∉ (lowDigits m).map digitChar := by
  rw [List.mem_map]
  rintro ⟨d, member, zero⟩
  exact digitChar_ne_zero d (lowDigits_lt member) zero

theorem toInt_magnitude {n : Int32} (negatable : n ≠ Int32.minValue) :
    (if n < 0 then -n else n).toInt = n.toInt.natAbs := by
  have lower := n.le_toInt
  have different : n.toInt ≠ Int32.minValue.toInt := fun same => negatable (Int32.toInt_inj.mp same)
  rw [Int32.toInt_minValue] at different
  by_cases negative : n < 0
  · rw [if_pos negative, Int32.toInt_neg]
    rw [Int32.lt_iff_toInt_lt, Int32.toInt_zero] at negative
    rw [Int.bmod_eq_of_le (by omega) (by omega)]
    omega
  · rw [if_neg negative]
    rw [Int32.lt_iff_toInt_lt, Int32.toInt_zero] at negative
    omega

theorem endsAt_reverseLoop {str : Bytes} {text : List Byte} (slice : HasSlice str 0 text)
    (proper : 0 ∉ text) :
    EndsAt 0 (reverseLoop (update str text.length 0) text.length) 0 text.reverse := by
  have ends := EndsAt.of_slice slice proper
  rw [Nat.zero_add] at ends
  exact ends.reverse

theorem itoa_decimal {n : Int32} (negatable : n ≠ Int32.minValue) (str : Bytes) {fuel : Nat}
    (enough : n.toInt.natAbs < fuel) :
    ∃ text, itoa n str fuel = some text ∧ EndsAt 0 text 0 (decimal n.toInt) := by
  have empty : HasSlice str 0 [] := trivial
  obtain ⟨str', digits, slice⟩ := itoaDigits_slice empty (toInt_magnitude negatable) enough
  rw [List.nil_append] at digits slice
  rw [List.length_nil] at digits
  have sign : n < 0 ↔ n.toInt < 0 := by rw [Int32.lt_iff_toInt_lt, Int32.toInt_zero]
  rw [itoa, ← decimal_eq_reverse]
  simp only [digits, Option.bind_eq_bind, Option.bind_some]
  by_cases negative : n < 0
  · have signed := slice.push 45
    rw [Nat.zero_add] at signed
    have ends := endsAt_reverseLoop signed (by
      rw [List.mem_append, not_or, List.mem_singleton]
      exact ⟨lowDigits_text_ne_zero, by decide⟩)
    rw [List.length_append, List.length_singleton] at ends
    rw [if_pos negative, if_pos (sign.mp negative)]
    exact ⟨_, rfl, ends⟩
  · rw [if_neg negative, if_neg (fun below => negative (sign.mpr below)), List.append_nil]
    exact ⟨_, rfl, endsAt_reverseLoop slice lowDigits_text_ne_zero⟩

/-- The least number is its own negation: its last digit comes out as `'0' - 8`, and the loop
ends with it. -/
theorem itoa_minValue (str : Bytes) (fuel : Nat) :
    ∃ text, itoa Int32.minValue str (fuel + 1) = some text ∧ EndsAt 0 text 0 [45, 40] := by
  have digits : itoaDigits (fuel + 1) (-Int32.minValue) 0 str = some (1, update str 0 40) := by
    have ended : ¬ 0 < -Int32.minValue / 10 := by decide
    rw [itoaDigits, if_neg ended]
    rfl
  have negative : Int32.minValue < 0 := by decide
  rw [itoa, if_pos negative, digits]
  have empty : HasSlice str 0 [] := trivial
  have written : HasSlice (update str 0 40) 0 [40] := empty.push 40
  exact ⟨_, rfl, endsAt_reverseLoop (written.push 45) (by decide)⟩

/-! ## The round trip -/

/-- `itoa` writes the canonical text of a number, and `atoi` reads it back. -/
def RoundTrips (n : Int32) (str : Bytes) : Prop :=
  ∃ enough, ∀ fuel, enough ≤ fuel → ∃ text,
    itoa n str fuel = some text ∧ EndsAt 0 text 0 (decimal n.toInt) ∧ atoi text fuel = some n

theorem not_roundTrips_minValue (str : Bytes) : ¬ RoundTrips Int32.minValue str := by
  rintro ⟨enough, trips⟩
  obtain ⟨text, written, ends, _⟩ := trips (enough + 1) (Nat.le_succ _)
  obtain ⟨text', written', ends'⟩ := itoa_minValue str enough
  rw [written, Option.some.injEq] at written'
  rw [← written'] at ends'
  exact absurd (ends.unique ends') (by decide)

theorem roundTrips_iff (n : Int32) (str : Bytes) : RoundTrips n str ↔ n ≠ Int32.minValue := by
  constructor
  · rintro trips rfl
    exact not_roundTrips_minValue str trips
  · intro negatable
    refine ⟨n.toInt.natAbs + (lowDigits n.toInt.natAbs).length + 1, ?_⟩
    intro fuel enough
    have outlasts : n.toInt.natAbs < fuel := by omega
    obtain ⟨text, written, ends⟩ := itoa_decimal negatable str outlasts
    exact ⟨text, written, ends, atoi_decimal ends (by omega)⟩

theorem least_number_lost : ¬ RoundTrips Int32.minValue fun _ => 0 :=
  not_roundTrips_minValue _

/-! ## int_to_str -/

/-- The character that `int_to_str` makes of a digit of a number with this sign. -/
def signedChar (sign : Int) (d : Nat) : Byte := toChar (48 + Int32.ofInt (sign * d))

theorem signedChar_ne_zero {sign : Int} (unit : sign = 1 ∨ sign = -1) {d : Nat} (digit : d < 10) :
    signedChar sign d ≠ 0 := by
  have positive : ∀ d, d < 10 → signedChar 1 d ≠ 0 := by decide
  have negative : ∀ d, d < 10 → signedChar (-1) d ≠ 0 := by decide
  rcases unit with rfl | rfl
  · exact positive d digit
  · exact negative d digit

theorem signedChar_one : ∀ d, d < 10 → signedChar 1 d = digitChar d := by decide

/-- Quotient and remainder are truncated towards zero and keep the sign. -/
theorem toInt_div_mod {value : Int32} {sign : Int} {m : Nat} (unit : sign = 1 ∨ sign = -1)
    (is : value.toInt = sign * m) :
    (value / 10).toInt = sign * (m / 10 : Nat) ∧
      value % 10 = Int32.ofInt (sign * (m % 10 : Nat)) := by
  have quotient : value.toInt.tdiv 10 = sign * (m / 10 : Nat) := by
    rw [is]
    rcases unit with rfl | rfl
    · rw [Int.one_mul, Int.one_mul]
      rfl
    · rw [Int.neg_one_mul, Int.neg_one_mul, Int.neg_tdiv]
      rfl
  have remainder : value.toInt.tmod 10 = sign * (m % 10 : Nat) := by
    rw [is]
    rcases unit with rfl | rfl
    · rw [Int.one_mul, Int.one_mul]
      rfl
    · rw [Int.neg_one_mul, Int.neg_one_mul, Int.neg_tmod]
      rfl
  rw [toInt_div_ten, quotient, ← remainder, ← toInt_mod_ten, Int32.ofInt_toInt]
  exact ⟨rfl, rfl⟩

theorem intToStrDigits_slice {value : Int32} {sign : Int} {m fuel : Nat} {temp : Bytes}
    {written : List Byte} (unit : sign = 1 ∨ sign = -1) (slice : HasSlice temp 0 written)
    (is : value.toInt = sign * m) (enough : m < fuel) :
    ∃ temp', intToStrDigits fuel value written.length temp =
        some ((written ++ (Nat.digits 10 m).map (signedChar sign)).length, temp') ∧
      HasSlice temp' 0 (written ++ (Nat.digits 10 m).map (signedChar sign)) := by
  induction fuel generalizing value m temp written with
  | zero => exact absurd enough (Nat.not_lt_zero _)
  | succ fuel ih =>
      have goes_on : value ≠ 0 ↔ m ≠ 0 := by
        rw [ne_eq, ← Int32.toInt_inj, is, Int32.toInt_zero]
        rcases unit with rfl | rfl <;> omega
      rw [intToStrDigits]
      by_cases more : m ≠ 0
      · obtain ⟨quotient, remainder⟩ := toInt_div_mod unit is
        have stored := slice.push (signedChar sign (m % 10))
        rw [Nat.zero_add] at stored
        have call := ih stored quotient (by omega)
        rw [List.append_assoc, List.length_append, List.length_singleton,
          List.singleton_append] at call
        rw [if_pos (goes_on.mpr more), remainder,
          Nat.digits_def' (by decide) (Nat.pos_of_ne_zero more), List.map_cons]
        exact call
      · rw [if_neg (fun running => more (goes_on.mp running)), not_not.mp more, Nat.digits_zero,
          List.map_nil, List.append_nil]
        exact ⟨temp, rfl, slice⟩

theorem intToStrCopy_slice {temp buffer : Bytes} {items written : List Byte}
    (slice : HasSlice temp 0 items) (done : HasSlice buffer 0 written) :
    ∃ buffer', intToStrCopy temp items.length written.length buffer =
        ((written ++ items.reverse).length, buffer') ∧
      HasSlice buffer' 0 (written ++ items.reverse) := by
  induction items using List.reverseRecOn generalizing buffer written with
  | nil =>
      rw [List.reverse_nil, List.append_nil]
      exact ⟨buffer, rfl, done⟩
  | append_singleton front last ih =>
      obtain ⟨earlier, here, _⟩ := HasSlice.append.mp slice
      rw [Nat.zero_add] at here
      have stored := done.push last
      rw [Nat.zero_add] at stored
      have call := ih earlier stored
      rw [List.append_assoc, List.length_append, List.length_singleton,
        List.singleton_append] at call
      rw [List.length_append, List.length_singleton, intToStrCopy, here, List.reverse_append,
        List.reverse_singleton, List.singleton_append]
      exact call

/-- Without a sign of its own, and with the digits of a negative number below `'0'`. -/
def intToStrText (sign : Int) (m : Nat) : List Byte :=
  if m = 0 then [48] else ((Nat.digits 10 m).map (signedChar sign)).reverse

theorem intToStr_text {value : Int32} {sign : Int} {m fuel : Nat} (unit : sign = 1 ∨ sign = -1)
    (is : value.toInt = sign * m) (buffer temp : Bytes) (enough : m < fuel) :
    ∃ text, intToStr value buffer temp fuel = some text ∧
      EndsAt 0 text 0 (intToStrText sign m) := by
  have zero_iff : value = 0 ↔ m = 0 := by
    rw [← Int32.toInt_inj, is, Int32.toInt_zero]
    rcases unit with rfl | rfl <;> omega
  rw [intToStr, intToStrText]
  by_cases zero : m = 0
  · have empty : HasSlice buffer 0 [] := trivial
    have written : HasSlice (update buffer 0 48) 0 [48] := empty.push 48
    rw [if_pos (zero_iff.mpr zero), if_pos zero]
    exact ⟨_, rfl, EndsAt.of_slice written (by decide)⟩
  · have none_taken : HasSlice temp 0 [] := trivial
    have none_copied : HasSlice buffer 0 [] := trivial
    obtain ⟨temp', digits, slice⟩ := intToStrDigits_slice unit none_taken is enough
    rw [List.nil_append] at digits slice
    rw [List.length_nil] at digits
    obtain ⟨buffer', copied, text⟩ := intToStrCopy_slice slice none_copied
    rw [List.nil_append] at copied text
    rw [List.length_nil] at copied
    have proper : 0 ∉ ((Nat.digits 10 m).map (signedChar sign)).reverse := by
      rw [List.mem_reverse, List.mem_map]
      rintro ⟨d, member, ended⟩
      exact signedChar_ne_zero unit (Nat.digits_lt_base (by decide) member) ended
    have ends := EndsAt.of_slice text proper
    rw [Nat.zero_add] at ends
    rw [if_neg (fun same => zero (zero_iff.mp same)), if_neg zero]
    simp only [digits, Option.bind_eq_bind, Option.bind_some, copied]
    exact ⟨_, rfl, ends⟩

example : intToStrText (-1) 5 = [43] := by decide

theorem intToStrText_one (m : Nat) : intToStrText 1 m = decimal m := by
  have nonneg : ¬ (m : Int) < 0 := by omega
  rw [intToStrText, decimal, if_neg nonneg, List.nil_append, Int.natAbs_natCast]
  by_cases zero : m = 0
  · rw [if_pos zero, zero]
    rfl
  · rw [if_neg zero, lowDigits_of_ne zero, List.map_reverse]
    apply congrArg
    apply List.map_congr_left
    intro d member
    exact signedChar_one d (Nat.digits_lt_base (by decide) member)

/-! ## The two formatters -/

/-- `int_to_str` and `itoa` write the same string. -/
def Agree (value : Int32) (buffer temp str : Bytes) : Prop :=
  ∃ enough, ∀ fuel, enough ≤ fuel → ∃ text text' chars,
    intToStr value buffer temp fuel = some text ∧ itoa value str fuel = some text' ∧
    EndsAt 0 text 0 chars ∧ EndsAt 0 text' 0 chars

theorem length_intToStrText {m : Nat} (nonzero : m ≠ 0) (sign : Int) :
    (intToStrText sign m).length = (Nat.digits 10 m).length := by
  rw [intToStrText, if_neg nonzero, List.length_reverse, List.length_map]

theorem length_decimal_of_neg {n : Int} (negative : n < 0) :
    (decimal n).length = (Nat.digits 10 n.natAbs).length + 1 := by
  have nonzero : n.natAbs ≠ 0 := Int.natAbs_ne_zero.mpr negative.ne
  rw [decimal, if_pos negative, List.singleton_append, List.length_cons, List.length_map,
    List.length_reverse, lowDigits_of_ne nonzero]

/-- The sign makes the text of `itoa` longer; that of the least number has two characters. -/
theorem itoa_length_of_neg {value : Int32} (negative : value.toInt < 0) (str : Bytes) {fuel : Nat}
    (enough : value.toInt.natAbs < fuel) :
    ∃ text chars, itoa value str fuel = some text ∧ EndsAt 0 text 0 chars ∧
      chars.length ≠ (Nat.digits 10 value.toInt.natAbs).length := by
  by_cases least : value = Int32.minValue
  · cases fuel with
    | zero => exact absurd enough (Nat.not_lt_zero _)
    | succ fuel =>
        obtain ⟨text, written, ends⟩ := itoa_minValue str fuel
        rw [least]
        exact ⟨text, _, written, ends, by decide⟩
  · obtain ⟨text, written, ends⟩ := itoa_decimal least str enough
    refine ⟨text, _, written, ends, ?_⟩
    rw [length_decimal_of_neg negative]
    exact Nat.succ_ne_self _

theorem not_agree_of_neg {value : Int32} (negative : value < 0) (buffer temp str : Bytes) :
    ¬ Agree value buffer temp str := by
  rintro ⟨enough, agree⟩
  rw [Int32.lt_iff_toInt_lt, Int32.toInt_zero] at negative
  have is : value.toInt = -1 * (value.toInt.natAbs : Int) := by omega
  have outlasts : value.toInt.natAbs < enough + value.toInt.natAbs + 1 := by omega
  obtain ⟨text, text', chars, first, second, ends, ends'⟩ :=
    agree (enough + value.toInt.natAbs + 1) (by omega)
  obtain ⟨written, stored, unsigned⟩ := intToStr_text (Or.inr rfl) is buffer temp outlasts
  obtain ⟨written', signed, stored', signed_ends, longer⟩ :=
    itoa_length_of_neg negative str outlasts
  rw [first, Option.some.injEq] at stored
  rw [second, Option.some.injEq] at stored'
  rw [stored] at ends
  rw [stored'] at ends'
  apply longer
  rw [← ends'.unique signed_ends, ends.unique unsigned,
    length_intToStrText (Int.natAbs_ne_zero.mpr negative.ne)]

theorem formatters_agree_iff (value : Int32) (buffer temp str : Bytes) :
    Agree value buffer temp str ↔ 0 ≤ value := by
  constructor
  · intro agree
    by_contra negative
    exact not_agree_of_neg (Int32.not_le.mp negative) buffer temp str agree
  · intro nonneg
    rw [Int32.le_iff_toInt_le, Int32.toInt_zero] at nonneg
    have is : value.toInt = 1 * (value.toInt.natAbs : Int) := by omega
    have negatable : value ≠ Int32.minValue := by
      rintro rfl
      exact absurd nonneg (by decide)
    refine ⟨value.toInt.natAbs + 1, ?_⟩
    intro fuel enough
    obtain ⟨text, written, ends⟩ := intToStr_text (Or.inl rfl) is buffer temp enough
    obtain ⟨text', written', ends'⟩ := itoa_decimal negatable str enough
    rw [intToStrText_one, Int.natAbs_of_nonneg nonneg] at ends
    exact ⟨text, text', _, written, written', ends, ends'⟩

theorem minus_five_differs : ¬ Agree (-5) (fun _ => 0) (fun _ => 0) fun _ => 0 :=
  not_agree_of_neg (by decide) _ _ _

end ApnaOS.Numbers
