import ApnaOS.Keyboard.StringOps
import ApnaOS.Lib.Slices

/-!
# C strings and their comparison

The results of `strcmp` and `strncmp` have the sign of the lexicographic comparison of their
arguments as unsigned bytes.
-/

set_option autoImplicit false

namespace ApnaOS.StringOps

open ApnaOS.Lib

/-- The memory behind a `char *`, with a terminator behind the characters. -/
structure CString where
  memory : Bytes
  chars : List Byte
  ends : EndsAt 0 memory 0 chars

/-- The sign of a comparison's result. -/
structure Signs (result : Int) (first second : List Byte) : Prop where
  negative : result < 0 ↔ first < second
  zero : result = 0 ↔ first = second
  positive : 0 < result ↔ second < first

namespace Signs

variable {result result' : Int} {first second : List Byte}

theorem of_lt (negative : result < 0) (less : first < second) : Signs result first second where
  negative := iff_of_true negative less
  zero := iff_of_false (ne_of_lt negative) fun same => List.lt_irrefl first (same ▸ less)
  positive := iff_of_false (lt_asymm negative) (List.lt_asymm less)

theorem of_gt (positive : 0 < result) (greater : second < first) : Signs result first second where
  negative := iff_of_false (lt_asymm positive) (List.lt_asymm greater)
  zero := iff_of_false (ne_of_gt positive) fun same => List.lt_irrefl first (same ▸ greater)
  positive := iff_of_true positive greater

theorem of_eq (chars : List Byte) : Signs 0 chars chars where
  negative := iff_of_false (lt_irrefl 0) (List.lt_irrefl chars)
  zero := iff_of_true rfl rfl
  positive := iff_of_false (lt_irrefl 0) (List.lt_irrefl chars)

theorem cons (signs : Signs result first second) (c : Byte) :
    Signs result (c :: first) (c :: second) where
  negative := by rw [List.cons_lt_cons_self, signs.negative]
  zero := by rw [List.cons_inj_right, signs.zero]
  positive := by rw [List.cons_lt_cons_self, signs.positive]

theorem sign_eq (signs : Signs result first second) (signs' : Signs result' first second) :
    result.sign = result'.sign := by
  have zeros := signs.zero.trans signs'.zero.symm
  have positives := signs.positive.trans signs'.positive.symm
  rcases lt_trichotomy result 0 with below | equal | above
  · rw [Int.sign_eq_neg_one_of_neg below, Int.sign_eq_neg_one_of_neg]
    exact signs'.negative.mpr (signs.negative.mp below)
  · rw [equal, zeros.mp equal]
  · rw [Int.sign_eq_one_of_pos above, Int.sign_eq_one_of_pos (positives.mp above)]

end Signs

section Difference

variable {s1 s2 : Bytes} {i : Nat} {chars1 chars2 : List Byte}

theorem byteDifference_neg_iff (s1 s2 : Bytes) (i : Nat) :
    byteDifference s1 s2 i < 0 ↔ s1 i < s2 i := by
  rw [byteDifference, UInt8.lt_iff_toNat_lt]
  omega

theorem byteDifference_pos_iff (s1 s2 : Bytes) (i : Nat) :
    0 < byteDifference s1 s2 i ↔ s2 i < s1 i := by
  rw [byteDifference, UInt8.lt_iff_toNat_lt]
  omega

theorem take_lt_of_first (ends1 : EndsAt 0 s1 i chars1) (ends2 : EndsAt 0 s2 i chars2)
    (less : s1 i < s2 i) (n : Nat) : chars1.take (n + 1) < chars2.take (n + 1) := by
  have running : s2 i ≠ 0 := by
    intro ended
    rw [ended] at less
    exact UInt8.not_lt_zero less
  obtain ⟨rest2, found2, _⟩ := ends2.of_ne running
  rw [found2, List.take_succ_cons]
  cases chars1 with
  | nil => exact List.nil_lt_cons _ _
  | cons c rest1 =>
      rw [List.take_succ_cons, List.cons_lt_cons_iff, ← ends1.slice.1]
      exact Or.inl less

theorem Signs.of_stopped (ends1 : EndsAt 0 s1 i chars1) (ends2 : EndsAt 0 s2 i chars2)
    (stopped : ¬ (s1 i ≠ 0 ∧ s1 i = s2 i)) (n : Nat) :
    Signs (byteDifference s1 s2 i) (chars1.take (n + 1)) (chars2.take (n + 1)) := by
  rcases lt_trichotomy (byteDifference s1 s2 i) 0 with less | same | greater
  · apply Signs.of_lt less
    exact take_lt_of_first ends1 ends2 ((byteDifference_neg_iff s1 s2 i).mp less) n
  · have equal := (byteDifference_eq_zero_iff s1 s2 i).mp same
    have ended : s1 i = 0 := by
      by_contra running
      exact stopped ⟨running, equal⟩
    rw [same, ends1.of_eq ended, ends2.of_eq (equal.symm.trans ended)]
    exact Signs.of_eq _
  · apply Signs.of_gt greater
    exact take_lt_of_first ends2 ends1 ((byteDifference_pos_iff s1 s2 i).mp greater) n

end Difference

/-! ## strcmp -/

/-- `while (*s1 && (*s1 == *s2))` from offset `i`. -/
def strcmpFrom (s1 s2 : Bytes) : Nat → Nat → Option Int
  | 0, _ => none
  | fuel + 1, i =>
      if s1 i ≠ 0 ∧ s1 i = s2 i then strcmpFrom s1 s2 fuel (i + 1)
      else some (byteDifference s1 s2 i)

/-- `none` while the fuel has not sufficed to find the end. -/
def strcmp (s1 s2 : Bytes) (fuel : Nat) : Option Int := strcmpFrom s1 s2 fuel 0

theorem strcmpFrom_signs {s1 s2 : Bytes} {fuel i : Nat} {chars1 chars2 : List Byte}
    (ends1 : EndsAt 0 s1 i chars1) (ends2 : EndsAt 0 s2 i chars2) (enough : chars1.length < fuel) :
    ∃ result, strcmpFrom s1 s2 fuel i = some result ∧ Signs result chars1 chars2 := by
  induction fuel generalizing i chars1 chars2 with
  | zero => exact absurd enough (Nat.not_lt_zero _)
  | succ fuel ih =>
      rw [strcmpFrom]
      by_cases running : s1 i ≠ 0 ∧ s1 i = s2 i
      · obtain ⟨rest1, found1, later1⟩ := ends1.of_ne running.1
        obtain ⟨rest2, found2, later2⟩ := ends2.of_ne (running.2 ▸ running.1)
        rw [found1, List.length_cons] at enough
        obtain ⟨result, returned, signs⟩ := ih later1 later2 (Nat.lt_of_succ_lt_succ enough)
        rw [if_pos running, found1, found2, ← running.2]
        exact ⟨result, returned, signs.cons _⟩
      · rw [if_neg running]
        have signs := Signs.of_stopped ends1 ends2 running (max chars1.length chars2.length)
        rw [List.take_of_length_le (by omega), List.take_of_length_le (by omega)] at signs
        exact ⟨_, rfl, signs⟩

theorem strcmp_signs (s1 s2 : CString) {fuel : Nat} (enough : s1.chars.length < fuel) :
    ∃ result, strcmp s1.memory s2.memory fuel = some result ∧ Signs result s1.chars s2.chars :=
  strcmpFrom_signs s1.ends s2.ends enough

/-! ## strncmp -/

theorem strncmpFrom_signs {s1 s2 : Bytes} {n i : Nat} {chars1 chars2 : List Byte}
    (ends1 : EndsAt 0 s1 i chars1) (ends2 : EndsAt 0 s2 i chars2) (fits : n ≤ sizeMax) :
    Signs (strncmpFrom s1 s2 n i) (chars1.take n) (chars2.take n) := by
  induction n generalizing i chars1 chars2 with
  | zero =>
      rw [strncmpFrom, strncmpResult, if_pos rfl, List.take_zero, List.take_zero]
      exact Signs.of_eq []
  | succ n ih =>
      have counting : n ≠ sizeMax := by omega
      rw [strncmpFrom]
      by_cases running : s1 i ≠ 0 ∧ s2 i ≠ 0
      · rw [if_pos running]
        by_cases different : s1 i ≠ s2 i
        · rw [if_pos different]
          exact Signs.of_stopped ends1 ends2 (fun both => different both.2) n
        · have same : s1 i = s2 i := not_ne_iff.mp different
          obtain ⟨rest1, found1, later1⟩ := ends1.of_ne running.1
          obtain ⟨rest2, found2, later2⟩ := ends2.of_ne running.2
          rw [if_neg different, found1, found2, ← same, List.take_succ_cons, List.take_succ_cons]
          exact (ih later1 later2 (Nat.le_of_succ_le fits)).cons _
      · -- A string has ended, and the counter has not wrapped.
        rw [if_neg running, strncmpResult, if_neg counting]
        apply Signs.of_stopped ends1 ends2
        rintro ⟨here, same⟩
        exact running ⟨here, same ▸ here⟩

theorem strncmpFrom_congr {s1 s2 t1 t2 : Bytes} {n i : Nat}
    (same1 : ∀ k, i ≤ k → k < i + n → t1 k = s1 k) (same2 : ∀ k, i ≤ k → k < i + n → t2 k = s2 k)
    (fits : n ≤ sizeMax) : strncmpFrom t1 t2 n i = strncmpFrom s1 s2 n i := by
  induction n generalizing i with
  | zero => rfl
  | succ n ih =>
      have counting : n ≠ sizeMax := by omega
      have here1 := same1 i (Nat.le_refl i) (by omega)
      have here2 := same2 i (Nat.le_refl i) (by omega)
      have later : strncmpFrom t1 t2 n (i + 1) = strncmpFrom s1 s2 n (i + 1) := by
        apply ih
        · exact fun k low high => same1 k (by omega) (by omega)
        · exact fun k low high => same2 k (by omega) (by omega)
        · exact Nat.le_of_succ_le fits
      rw [strncmpFrom, strncmpFrom, strncmpResult, strncmpResult, if_neg counting, if_neg counting,
        byteDifference, byteDifference, here1, here2, later]

theorem strncmp_compares (s1 s2 : CString) (n : UInt32) :
    Signs (strncmp s1.memory s2.memory n.toNat) (s1.chars.take n.toNat) (s2.chars.take n.toNat) ∧
    (∀ t1 t2 : Bytes, (∀ k, k < n.toNat → t1 k = s1.memory k) →
      (∀ k, k < n.toNat → t2 k = s2.memory k) →
      strncmp t1 t2 n.toNat = strncmp s1.memory s2.memory n.toNat) ∧
    (s1.chars.length < n.toNat → s2.chars.length < n.toNat →
      ∃ enough, ∀ fuel, enough ≤ fuel →
        ∃ result, strcmp s1.memory s2.memory fuel = some result ∧
          (strncmp s1.memory s2.memory n.toNat).sign = result.sign) := by
  have fits : n.toNat ≤ sizeMax := Nat.le_pred_of_lt n.toNat_lt
  have signs := strncmpFrom_signs s1.ends s2.ends fits
  refine ⟨signs, ?_, ?_⟩
  · intro t1 t2 same1 same2
    apply strncmpFrom_congr _ _ fits
    · exact fun k _ high => same1 k (by omega)
    · exact fun k _ high => same2 k (by omega)
  · intro longer1 longer2
    rw [List.take_of_length_le longer1.le, List.take_of_length_le longer2.le] at signs
    refine ⟨s1.chars.length + 1, ?_⟩
    intro fuel enough
    obtain ⟨result, returned, signs'⟩ := strcmp_signs s1 s2 (Nat.lt_of_succ_le enough)
    exact ⟨result, returned, signs.sign_eq signs'⟩

end ApnaOS.StringOps
