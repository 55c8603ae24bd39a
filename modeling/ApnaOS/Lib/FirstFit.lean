import Mathlib.Data.Nat.Find

/-!
# First fit

A single pass that counts consecutive free positions and starts again at every
occupied one finds the first run of the wanted length.
-/

set_option autoImplicit false

namespace ApnaOS.Lib

/-- `length` free positions from `start` on, inside the bound, and no earlier start. -/
structure FirstRun (free : Nat → Bool) (bound length start : Nat) : Prop where
  fits : start + length ≤ bound
  run : ∀ j, j < length → free (start + j) = true
  first : ∀ earlier, earlier < start → ∃ j, j < length ∧ free (earlier + j) = false

theorem FirstRun.unique {free : Nat → Bool} {bound length start other : Nat}
    (here : FirstRun free bound length start) (there : FirstRun free bound length other) :
    start = other := by
  rcases Nat.lt_trichotomy start other with lower | same | higher
  · obtain ⟨j, inside, occupied⟩ := there.first start lower
    rw [here.run j inside] at occupied
    cases occupied
  · exact same
  · obtain ⟨j, inside, occupied⟩ := here.first other higher
    rw [there.run j inside] at occupied
    cases occupied

theorem exists_firstRun {free : Nat → Bool} {bound length somewhere : Nat}
    (fits : somewhere + length ≤ bound) (run : ∀ j, j < length → free (somewhere + j) = true) :
    ∃ start, start ≤ somewhere ∧ FirstRun free bound length start := by
  have starts : ∃ start, ∀ j, j < length → free (start + j) = true := ⟨somewhere, run⟩
  have least := Nat.find_min' starts run
  refine ⟨Nat.find starts, least, by omega, Nat.find_spec starts, ?_⟩
  intro earlier lower
  have broken := Nat.find_min starts lower
  push Not at broken
  obtain ⟨j, inside, occupied⟩ := broken
  exact ⟨j, inside, by simpa using occupied⟩

/-- One pass over `remaining` positions from `position` on; `count` of the
positions just before are free. -/
def scanRun (free : Nat → Bool) (length : Nat) : Nat → Nat → Nat → Option Nat
  | 0, _, _ => none
  | remaining + 1, position, count =>
      if free position then
        if count + 1 = length then some (position - count)
        else scanRun free length remaining (position + 1) (count + 1)
      else scanRun free length remaining (position + 1) 0

theorem scanRun_zero (free : Nat → Bool) (remaining position count : Nat) :
    scanRun free 0 remaining position count = none := by
  induction remaining generalizing position count with
  | zero => rfl
  | succ remaining ih => simp [scanRun, ih]

/-- The pass finds exactly the first run, given that the positions counted are
free and that no run starts before them. -/
theorem scanRun_eq_some_iff {free : Nat → Bool} {length : Nat} (remaining : Nat)
    {position count : Nat} (below : count < length) (counted : count ≤ position)
    (run : ∀ j, j < count → free (position - count + j) = true)
    (first : ∀ earlier, earlier < position - count →
      ∃ j, j < length ∧ free (earlier + j) = false) (start : Nat) :
    scanRun free length remaining position count = some start ↔
      FirstRun free (position + remaining) length start := by
  induction remaining generalizing position count with
  | zero =>
      apply iff_of_false (by simp [scanRun])
      intro found
      have fits := found.fits
      have early : start < position - count := by omega
      obtain ⟨j, inside, occupied⟩ := first start early
      rw [found.run j inside] at occupied
      cases occupied
  | succ remaining ih =>
      have shift : position + 1 + remaining = position + (remaining + 1) := by omega
      rw [scanRun]
      split
      · rename_i here
        have extended : ∀ j, j < count + 1 → free (position - count + j) = true := by
          intro j inside
          by_cases old : j < count
          · exact run j old
          · have last : position - count + j = position := by omega
            rw [last]
            exact here
        split
        · rename_i complete
          subst complete
          have found : FirstRun free (position + (remaining + 1)) (count + 1)
              (position - count) := ⟨by omega, extended, first⟩
          constructor
          · intro same
            cases Option.some.inj same
            exact found
          · intro other
            rw [found.unique other]
        · rename_i incomplete
          have ih' := @ih (position + 1) (count + 1)
          rw [Nat.add_sub_add_right, shift] at ih'
          exact ih' (by omega) (by omega) extended first
      · rename_i occupied
        have occupied' : free position = false := by simpa using occupied
        rw [← shift]
        refine ih (by omega) (Nat.zero_le _) (fun j none_left => by omega) ?_
        intro earlier lower
        by_cases old : earlier < position - count
        · exact first earlier old
        · refine ⟨position - earlier, by omega, ?_⟩
          rw [Nat.add_sub_of_le (by omega)]
          exact occupied'

theorem scanRun_start_iff {free : Nat → Bool} {bound length : Nat} (positive : 0 < length)
    (start : Nat) :
    scanRun free length bound 0 0 = some start ↔ FirstRun free bound length start := by
  have counted : ∀ j, j < 0 → free (0 - 0 + j) = true :=
    fun j below => absurd below (Nat.not_lt_zero j)
  have spec := scanRun_eq_some_iff bound positive (Nat.zero_le 0) counted
    (fun earlier lower => absurd lower (Nat.not_lt_zero earlier)) start
  rwa [Nat.zero_add] at spec

theorem scanRun_start_eq_none_iff {free : Nat → Bool} {bound length : Nat} (positive : 0 < length) :
    scanRun free length bound 0 0 = none ↔
      ¬ ∃ start, start + length ≤ bound ∧ ∀ j, j < length → free (start + j) = true := by
  rw [Option.eq_none_iff_forall_ne_some, not_exists]
  constructor
  · rintro nothing start ⟨fits, run⟩
    obtain ⟨first, _, found⟩ := exists_firstRun fits run
    exact nothing first ((scanRun_start_iff positive first).mpr found)
  · intro nowhere start found
    have run := (scanRun_start_iff positive start).mp found
    exact nowhere start ⟨run.fits, run.run⟩

end ApnaOS.Lib
