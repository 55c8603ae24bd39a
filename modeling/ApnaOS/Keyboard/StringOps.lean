import Mathlib.Data.List.Basic
import Mathlib.Logic.Function.Basic
import Mathlib.Tactic.Ring

/-!
# The byte-string routines of string.c

A `char *` is modelled by the memory it points into, as a function from offsets
to bytes; a write produces the memory after it.  `size_t` is 32 bits wide, so a
post-decremented counter that is tested at zero wraps to `sizeMax`.
-/

set_option autoImplicit false

namespace ApnaOS.StringOps

open Function (update update_self update_of_ne)

abbrev Byte := UInt8

abbrev Bytes := Nat → Byte

def sizeMax : Nat := 2 ^ 32 - 1

/-! ## memcpy and memset -/

/-- `while (n--) *d++ = *s++;` with source and destination in separate objects. -/
def memcpy (dest : Bytes) (d : Nat) (src : Bytes) (s : Nat) : Nat → Bytes
  | 0 => dest
  | n + 1 => memcpy (update dest d (src s)) (d + 1) src (s + 1) n

theorem memcpy_apply (src : Bytes) (n : Nat) (dest : Bytes) (d s k : Nat) :
    memcpy dest d src s n k =
      if d ≤ k ∧ k < d + n then src (s + (k - d)) else dest k := by
  induction n generalizing dest d s with
  | zero =>
      have outside : ¬ (d ≤ k ∧ k < d + 0) := by omega
      rw [if_neg outside, memcpy]
  | succ n ih =>
      rw [memcpy, ih]
      by_cases first : k = d
      · subst first
        have later : ¬ (k + 1 ≤ k ∧ k < k + 1 + n) := by omega
        have inside : k ≤ k ∧ k < k + (n + 1) := by omega
        rw [if_neg later, if_pos inside, update_self, Nat.sub_self, Nat.add_zero]
      · by_cases inside : d + 1 ≤ k ∧ k < d + 1 + n
        · have wider : d ≤ k ∧ k < d + (n + 1) := by omega
          have shifted : s + 1 + (k - (d + 1)) = s + (k - d) := by omega
          rw [if_pos inside, if_pos wider, shifted]
        · have wider : ¬ (d ≤ k ∧ k < d + (n + 1)) := by omega
          rw [if_neg inside, if_neg wider, update_of_ne first]

/-- `while (n--) *p++ = c;` -/
def memset (s : Bytes) (p : Nat) (c : Byte) : Nat → Bytes
  | 0 => s
  | n + 1 => memset (update s p c) (p + 1) c n

theorem memset_eq_memcpy (c : Byte) (n : Nat) (s : Bytes) (p : Nat) :
    memset s p c n = memcpy s p (fun _ => c) 0 n := by
  have start : ∀ offset, memset s p c n = memcpy s p (fun _ => c) offset n := by
    induction n generalizing s p with
    | zero => intro offset; rfl
    | succ n ih => intro offset; exact ih (update s p c) (p + 1) (offset + 1)
  exact start 0

theorem memset_apply (c : Byte) (n : Nat) (s : Bytes) (p k : Nat) :
    memset s p c n k = if p ≤ k ∧ k < p + n then c else s k := by
  rw [memset_eq_memcpy, memcpy_apply]

/-! ## strncmp -/

/-- `(unsigned char)*s1 - (unsigned char)*s2` at offset `i`. -/
def byteDifference (s1 s2 : Bytes) (i : Nat) : Int :=
  (s1 i).toNat - (s2 i).toNat

/-- The last statement of `strncmp`: `n` is the counter the loop left behind. -/
def strncmpResult (s1 s2 : Bytes) (n i : Nat) : Int :=
  if n = sizeMax then 0 else byteDifference s1 s2 i

/-- `while (n-- && *s1 && *s2)` from offset `i`. -/
def strncmpFrom (s1 s2 : Bytes) : Nat → Nat → Int
  | 0, i => strncmpResult s1 s2 sizeMax i
  | n + 1, i =>
      if s1 i ≠ 0 ∧ s2 i ≠ 0 then
        if s1 i ≠ s2 i then byteDifference s1 s2 i else strncmpFrom s1 s2 n (i + 1)
      else strncmpResult s1 s2 n i

def strncmp (s1 s2 : Bytes) (n : Nat) : Int := strncmpFrom s1 s2 n 0

theorem byteDifference_eq_zero_iff (s1 s2 : Bytes) (i : Nat) :
    byteDifference s1 s2 i = 0 ↔ s1 i = s2 i := by
  rw [byteDifference, Int.sub_eq_zero, Int.natCast_inj, UInt8.toNat_inj]

/-- `strncmp` finds no difference exactly when the strings agree at every
offset below `n` up to and including their first terminator. -/
theorem strncmpFrom_eq_zero_iff (s1 s2 : Bytes) (n i : Nat) (fits : n ≤ sizeMax) :
    strncmpFrom s1 s2 n i = 0 ↔
      ∀ k, k < n → (∀ j, j < k → s1 (i + j) ≠ 0) → s1 (i + k) = s2 (i + k) := by
  induction n generalizing i with
  | zero => simp [strncmpFrom, strncmpResult]
  | succ n ih =>
      have split_first : (∀ k, k < n + 1 → (∀ j, j < k → s1 (i + j) ≠ 0) →
            s1 (i + k) = s2 (i + k)) ↔
          s1 i = s2 i ∧ (s1 i ≠ 0 → ∀ k, k < n → (∀ j, j < k → s1 (i + 1 + j) ≠ 0) →
            s1 (i + 1 + k) = s2 (i + 1 + k)) := by
        constructor
        · intro agree
          refine ⟨by simpa using agree 0 (by omega) (by omega), ?_⟩
          intro started k bound running
          have next := agree (k + 1) (by omega) (by
            intro j lower
            cases j with
            | zero => simpa using started
            | succ j => simpa [Nat.add_assoc, Nat.add_comm 1 j] using running j (by omega))
          simpa [Nat.add_assoc, Nat.add_comm 1 k] using next
        · rintro ⟨here, later⟩ k bound running
          cases k with
          | zero => simpa using here
          | succ k =>
              have started : s1 i ≠ 0 := by simpa using running 0 (by omega)
              have next := later started k (by omega) (by
                intro j lower
                simpa [Nat.add_assoc, Nat.add_comm 1 j] using running (j + 1) (by omega))
              simpa [Nat.add_assoc, Nat.add_comm 1 k] using next
      rw [split_first, strncmpFrom]
      have not_exhausted : n ≠ sizeMax := by omega
      by_cases running : s1 i ≠ 0 ∧ s2 i ≠ 0
      · rw [if_pos running]
        by_cases differ : s1 i = s2 i
        · have continued : ¬ (s1 i ≠ s2 i) := not_not.mpr differ
          rw [if_neg continued, ih (i + 1) (by omega)]
          exact ⟨fun rest => ⟨differ, fun _ => rest⟩, fun both => both.2 running.1⟩
        · rw [if_pos differ, byteDifference_eq_zero_iff]
          exact ⟨fun equal => absurd equal differ, fun both => both.1⟩
      · rw [if_neg running, strncmpResult, if_neg not_exhausted, byteDifference_eq_zero_iff]
        constructor
        · intro equal
          refine ⟨equal, fun started => ?_⟩
          exact absurd ⟨started, equal ▸ started⟩ running
        · exact fun both => both.1

/-! ## strncpy -/

/-- `while (n-- && (*d++ = *src++));`: the counter and offset it leaves, and the
memory after it. -/
def strncpyCopy (src : Bytes) : Nat → Nat → Bytes → Nat × Nat × Bytes
  | 0, i, dest => (sizeMax, i, dest)
  | n + 1, i, dest =>
      if src i ≠ 0 then strncpyCopy src n (i + 1) (update dest i (src i))
      else (n, i + 1, update dest i (src i))

/-- `while (n-- > 0) *d++ = '\0';` -/
def strncpyPad : Nat → Nat → Bytes → Bytes
  | 0, _, dest => dest
  | n + 1, i, dest => strncpyPad n (i + 1) (update dest i 0)

def strncpy (dest src : Bytes) (n : Nat) : Bytes :=
  let (left, i, copied) := strncpyCopy src n 0 dest
  strncpyPad left i copied

theorem strncpyPad_eq_memset (n i : Nat) (dest : Bytes) :
    strncpyPad n i dest = memset dest i 0 n := by
  induction n generalizing i dest with
  | zero => rfl
  | succ n ih => exact ih (i + 1) (update dest i 0)

theorem strncpyCopy_of_terminated (src : Bytes) (length n i : Nat) (dest : Bytes)
    (enough : length < n) (stop : src (i + length) = 0)
    (running : ∀ j, j < length → src (i + j) ≠ 0) :
    strncpyCopy src n i dest =
      (n - (length + 1), i + (length + 1), memcpy dest i src i (length + 1)) := by
  induction length generalizing n i dest with
  | zero =>
      cases n with
      | zero => omega
      | succ n =>
          have terminator : src i = 0 := by simpa using stop
          simp [strncpyCopy, terminator, memcpy]
  | succ length ih =>
      cases n with
      | zero => omega
      | succ n =>
          have here : src i ≠ 0 := by simpa using running 0 (by omega)
          have stop' : src (i + 1 + length) = 0 := by
            rw [← stop]; congr 1; omega
          have running' : ∀ j, j < length → src (i + 1 + j) ≠ 0 := by
            intro j lower
            have ahead := running (j + 1) (by omega)
            rwa [show i + (j + 1) = i + 1 + j by omega] at ahead
          rw [strncpyCopy, if_pos here, ih n (i + 1) (update dest i (src i)) (by omega) stop' running',
            Nat.add_sub_add_right, show i + 1 + (length + 1) = i + (length + 1 + 1) by omega]
          rfl

/-- For a source shorter than `n`, `strncpy` writes the source and fills the
rest of the `n` bytes with zeros. -/
theorem strncpy_of_terminated (dest src : Bytes) (length n k : Nat)
    (enough : length < n) (stop : src length = 0)
    (running : ∀ j, j < length → src j ≠ 0) :
    strncpy dest src n k =
      if k < length then src k else if k < n then 0 else dest k := by
  have copied := strncpyCopy_of_terminated src length n 0 dest enough (by simpa using stop)
    (by simpa using running)
  simp only [strncpy, copied, strncpyPad_eq_memset, memset_apply, memcpy_apply, Nat.zero_add,
    Nat.zero_le, true_and, Nat.sub_zero]
  by_cases inside : k < length
  · rw [if_neg (by omega), if_pos (by omega), if_pos inside]
  · by_cases terminator : k = length
    · subst terminator
      rw [if_neg (by omega), if_pos (by omega), if_neg inside, if_pos enough, stop]
    · by_cases padded : k < n
      · rw [if_pos (by omega), if_neg inside, if_pos padded]
      · rw [if_neg (by omega), if_neg (by omega), if_neg inside, if_neg padded]

end ApnaOS.StringOps
