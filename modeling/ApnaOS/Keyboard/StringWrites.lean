import ApnaOS.Keyboard.StringOps
import ApnaOS.Lib.Writes

/-!
# Where the byte-string routines store

The loops of string.c once more, each with the stores it makes in place of the memory it leaves.
-/

set_option autoImplicit false

namespace ApnaOS.StringOps

open ApnaOS.Lib
open Function (update)

/-! ## memcpy -/

/-- The stores of `memcpy`. -/
def memcpyWrites (d : Nat) (src : Bytes) (s : Nat) : Nat → Writes Byte
  | 0 => []
  | n + 1 => (d, src s) :: memcpyWrites (d + 1) src (s + 1) n

theorem memcpyWrites_value (dest : Bytes) (d : Nat) (src : Bytes) (s n : Nat) :
    Writes.apply dest (memcpyWrites d src s n) = memcpy dest d src s n := by
  induction n generalizing dest d s with
  | zero => rfl
  | succ n ih => exact ih (update dest d (src s)) (d + 1) (s + 1)

theorem memcpyWrites_eq_span (d : Nat) (src : Bytes) (s n : Nat) :
    memcpyWrites d src s n = Writes.span d (fun k => src (s + k)) n := by
  induction n generalizing d s with
  | zero => rfl
  | succ n ih =>
      rw [memcpyWrites, ih, Writes.span_succ]
      simp only [Nat.add_zero, Nat.add_assoc, Nat.add_comm 1]

/-! ## strncpy -/

/-- The first loop of `strncpy`: the counter and the offset it leaves, and its stores. -/
def strncpyCopyWrites (src : Bytes) : Nat → Nat → Nat × Nat × Writes Byte
  | 0, i => (sizeMax, i, [])
  | n + 1, i =>
      if src i ≠ 0 then
        let (left, next, writes) := strncpyCopyWrites src n (i + 1)
        (left, next, (i, src i) :: writes)
      else (n, i + 1, [(i, src i)])

def strncpyPadWrites : Nat → Nat → Writes Byte
  | 0, _ => []
  | n + 1, i => (i, 0) :: strncpyPadWrites n (i + 1)

/-- The stores of `strncpy(dest, src, n)`, by their offset from `dest`. -/
def strncpyWrites (src : Bytes) (n : Nat) : Writes Byte :=
  let (left, i, writes) := strncpyCopyWrites src n 0
  writes ++ strncpyPadWrites left i

theorem strncpyCopyWrites_value (src : Bytes) (n i : Nat) (dest : Bytes) :
    strncpyCopy src n i dest =
      ((strncpyCopyWrites src n i).1, (strncpyCopyWrites src n i).2.1,
        Writes.apply dest (strncpyCopyWrites src n i).2.2) := by
  induction n generalizing i dest with
  | zero => rfl
  | succ n ih =>
      rw [strncpyCopy, strncpyCopyWrites]
      by_cases running : src i ≠ 0
      · rw [if_pos running, if_pos running]
        exact ih (i + 1) (update dest i (src i))
      · rw [if_neg running, if_neg running]
        rfl

theorem strncpyPadWrites_value (n i : Nat) (dest : Bytes) :
    Writes.apply dest (strncpyPadWrites n i) = strncpyPad n i dest := by
  induction n generalizing i dest with
  | zero => rfl
  | succ n ih => exact ih (i + 1) (update dest i 0)

theorem strncpyWrites_value (dest src : Bytes) (n : Nat) :
    Writes.apply dest (strncpyWrites src n) = strncpy dest src n := by
  rw [strncpyWrites, Writes.apply_append, strncpyPadWrites_value, strncpy,
    strncpyCopyWrites_value src n 0 dest]

/-- `src` is a C string of `length` characters. -/
structure IsString (src : Bytes) (length : Nat) : Prop where
  running : ∀ j, j < length → src j ≠ 0
  stop : src length = 0

theorem strncpyCopyWrites_short (src : Bytes) (length n i : Nat) (enough : length < n)
    (running : ∀ j, j < length → src (i + j) ≠ 0) (stop : src (i + length) = 0) :
    strncpyCopyWrites src n i =
      (n - (length + 1), i + (length + 1), Writes.span i (fun k => src (i + k)) (length + 1)) := by
  induction length generalizing n i with
  | zero =>
      cases n with
      | zero => omega
      | succ n =>
          have terminator : ¬ src i ≠ 0 := not_not.mpr stop
          rw [strncpyCopyWrites, if_neg terminator]
          rfl
  | succ length ih =>
      cases n with
      | zero => omega
      | succ n =>
          have here : src i ≠ 0 := running 0 (by omega)
          have step : ∀ j, i + 1 + j = i + (j + 1) := by
            intro j
            omega
          have rest := ih n (i + 1) (by omega)
            (fun j lower => by rw [step]; exact running (j + 1) (by omega)) (by rw [step]; exact stop)
          rw [strncpyCopyWrites, if_pos here, rest, Writes.span_succ i _ (length + 1)]
          simp only [step, Nat.add_zero, Nat.add_sub_add_right]

theorem strncpyCopyWrites_long (src : Bytes) (n i : Nat) (running : ∀ j, j < n → src (i + j) ≠ 0) :
    strncpyCopyWrites src n i = (sizeMax, i + n, Writes.span i (fun k => src (i + k)) n) := by
  induction n generalizing i with
  | zero => rfl
  | succ n ih =>
      have here : src i ≠ 0 := running 0 (by omega)
      have step : ∀ j, i + 1 + j = i + (j + 1) := by
        intro j
        omega
      have rest := ih (i + 1) fun j lower => by rw [step]; exact running (j + 1) (by omega)
      rw [strncpyCopyWrites, if_pos here, rest, Writes.span_succ i _ n]
      simp only [step, Nat.add_zero]

theorem strncpyPadWrites_eq_span (n i : Nat) :
    strncpyPadWrites n i = Writes.span i (fun _ => 0) n := by
  induction n generalizing i with
  | zero => rfl
  | succ n ih => rw [strncpyPadWrites, ih, Writes.span_succ]

/-- The bytes that `strncpy` is meant to leave in `dest`. -/
def padded (src : Bytes) (length k : Nat) : Byte := if k < length then src k else 0

theorem strncpyWrites_short {src : Bytes} {length n : Nat} (string : IsString src length)
    (enough : length < n) : strncpyWrites src n = Writes.span 0 (padded src length) n := by
  have copied := strncpyCopyWrites_short src length n 0 enough
    (fun j lower => by rw [Nat.zero_add]; exact string.running j lower)
    (by rw [Nat.zero_add]; exact string.stop)
  have split : n = (length + 1) + (n - (length + 1)) := by omega
  rw [strncpyWrites, copied]
  dsimp only
  rw [strncpyPadWrites_eq_span]
  conv => rhs; rw [split, Writes.span_add]
  rw [Nat.zero_add]
  apply congrArg₂
  · apply Writes.span_congr
    intro k inside
    rw [padded, Nat.zero_add]
    by_cases before : k < length
    · rw [if_pos before]
    · have last : k = length := by omega
      rw [if_neg before, last, string.stop]
  · apply Writes.span_congr
    intro k _
    rw [padded, if_neg (by omega)]

theorem strncpyWrites_long {src : Bytes} {length n : Nat} (string : IsString src length)
    (long : n ≤ length) :
    strncpyWrites src n = Writes.span 0 src n ++ Writes.span n (fun _ => 0) sizeMax := by
  have copied := strncpyCopyWrites_long src n 0
    (fun j lower => by rw [Nat.zero_add]; exact string.running j (by omega))
  rw [strncpyWrites, copied]
  dsimp only
  rw [strncpyPadWrites_eq_span]
  simp only [Nat.zero_add]

theorem sizeMax_pos : 0 < sizeMax := by decide

/-- `strncpy` stores the name and its padding, and nothing else, if the terminator is among
the first `n` bytes of the source; else the counter has wrapped. -/
theorem strncpyWrites_eq_iff {src : Bytes} {length : Nat} (string : IsString src length) (n : Nat) :
    strncpyWrites src n = Writes.span 0 (padded src length) n ↔ length < n := by
  constructor
  · intro same
    by_contra long
    have lengths := congrArg List.length
      ((strncpyWrites_long string (by omega)).symm.trans same)
    have positive := sizeMax_pos
    simp only [Writes.length_span, List.length_append] at lengths
    omega
  · exact strncpyWrites_short string

theorem strncpyWrites_within_iff {src : Bytes} {length n : Nat} (string : IsString src length)
    (positive : 0 < n) : Writes.Within n (strncpyWrites src n) ↔ length < n := by
  constructor
  · intro within
    by_contra long
    rw [strncpyWrites_long string (by omega), Writes.within_append,
      Writes.within_span sizeMax_pos] at within
    have wrapped := sizeMax_pos
    omega
  · intro enough
    rw [strncpyWrites_short string enough, Writes.within_span positive, Nat.zero_add]

end ApnaOS.StringOps
