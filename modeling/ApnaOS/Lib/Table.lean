import Mathlib.Data.Nat.Count
import Mathlib.Data.Finset.Card
import Mathlib.Data.Finset.Prod
import Mathlib.Data.List.Find
import Mathlib.Logic.Function.Basic

/-!
# Tables indexed by natural numbers

A fixed-size table is a function on indices together with its size.  The lemmas
cover the three things a table-driven component does: scan for the first entry
that satisfies a test, count the entries that do, and argue that an entry is
left because too few are taken.
-/

set_option autoImplicit false

namespace ApnaOS.Lib

/-! ## First match -/

/-- The scan `for (i = 0; i < size; i++) if (test(i)) return i;`. -/
def firstIndex (size : Nat) (test : Nat → Bool) : Option Nat :=
  (List.range size).find? test

theorem firstIndex_eq_some_iff (size : Nat) (test : Nat → Bool) (i : Nat) :
    firstIndex size test = some i ↔
      i < size ∧ test i = true ∧ ∀ j, j < i → test j = false := by
  simp only [firstIndex, List.find?_range_eq_some, List.mem_range, Bool.not_eq_true']
  tauto

theorem firstIndex_eq_none_iff (size : Nat) (test : Nat → Bool) :
    firstIndex size test = none ↔ ∀ i, i < size → test i = false := by
  simp [firstIndex]

theorem firstIndex_isSome_of (size : Nat) (test : Nat → Bool) (i : Nat)
    (bound : i < size) (found : test i = true) : ∃ j, firstIndex size test = some j := by
  cases scan : firstIndex size test with
  | some j => exact ⟨j, rfl⟩
  | none =>
      have missed := (firstIndex_eq_none_iff size test).mp scan i bound
      simp [missed] at found

theorem firstIndex_congr {size : Nat} {test other : Nat → Bool}
    (same : ∀ i, i < size → test i = other i) : firstIndex size test = firstIndex size other :=
  List.find?_congr fun i member => same i (List.mem_range.mp member)

-- A scan of a large table must not be unrolled by the elaborator.
attribute [irreducible] firstIndex

/-! ## Counting -/

theorem count_congr_below (size : Nat) (left right : Nat → Prop)
    [DecidablePred left] [DecidablePred right]
    (same : ∀ i, i < size → (left i ↔ right i)) :
    Nat.count left size = Nat.count right size := by
  induction size with
  | zero => simp
  | succ size ih =>
      have here := same size (by omega)
      rw [Nat.count_succ, Nat.count_succ, ih (fun i bound => same i (by omega))]
      simp only [here]

theorem count_eq_succ_of_cleared (size : Nat) (before after : Nat → Prop)
    [DecidablePred before] [DecidablePred after] (i : Nat) (bound : i < size)
    (held : before i) (cleared : ¬ after i)
    (same : ∀ j, j < size → j ≠ i → (before j ↔ after j)) :
    Nat.count before size = Nat.count after size + 1 := by
  induction size with
  | zero => omega
  | succ size ih =>
      rw [Nat.count_succ, Nat.count_succ]
      by_cases last : i = size
      · subst last
        have earlier : Nat.count before i = Nat.count after i :=
          count_congr_below i before after (fun j lower => same j (by omega) (by omega))
        simp [held, cleared, earlier]
      · have here := same size (by omega) (fun equal => last equal.symm)
        rw [ih (by omega) (fun j lower => same j (by omega))]
        simp only [here]
        omega

/-- Two tables with room to spare: when the taken entries of a table of `size`
entries are tagged injectively by fewer than `size` tags, some entry is free. -/
theorem exists_free_of_tagged {Tag : Type} (size : Nat)
    (taken : Nat → Prop) (tag : Nat → Tag) (tags : Finset Tag)
    (few : tags.card < size)
    (tagged : ∀ i, i < size → taken i → tag i ∈ tags)
    (injective : ∀ i j, i < size → j < size → taken i → taken j → tag i = tag j → i = j) :
    ∃ i, i < size ∧ ¬ taken i := by
  by_contra full
  push Not at full
  have fits : (Finset.range size).card ≤ tags.card := by
    apply Finset.card_le_card_of_injOn tag
    · intro i member
      have bound := Finset.mem_range.mp member
      exact tagged i bound (full i bound)
    · intro i left j right same
      have leftBound := Finset.mem_range.mp (Finset.mem_coe.mp left)
      have rightBound := Finset.mem_range.mp (Finset.mem_coe.mp right)
      exact injective i j leftBound rightBound (full i leftBound) (full j rightBound) same
  rw [Finset.card_range] at fits
  omega

/-- A table of `rows * cols` slots that hold entries of a table of at least that
size: while one slot is empty, not every entry is held. -/
theorem exists_free_of_empty_slot (rows cols size : Nat) (fits : rows * cols ≤ size)
    (taken : Nat → Prop) (slots : Nat → Nat → Option Nat)
    (owned : ∀ b, b < size → taken b → ∃ k j, k < rows ∧ j < cols ∧ slots k j = some b)
    {k j : Nat} (row : k < rows) (col : j < cols) (empty : slots k j = none) :
    ∃ b, b < size ∧ ¬ taken b := by
  have holders : ∀ b, ∃ holder : Nat × Nat, b < size → taken b →
      holder.1 < rows ∧ holder.2 < cols ∧ slots holder.1 holder.2 = some b := by
    intro b
    by_cases held : b < size ∧ taken b
    · obtain ⟨k', j', row', col', holds⟩ := owned b held.1 held.2
      exact ⟨(k', j'), fun _ _ => ⟨row', col', holds⟩⟩
    · exact ⟨(0, 0), fun bound one => absurd ⟨bound, one⟩ held⟩
  choose holder held using holders
  have member : (k, j) ∈ Finset.range rows ×ˢ Finset.range cols := by simp [row, col]
  have few : ((Finset.range rows ×ˢ Finset.range cols).erase (k, j)).card < size := by
    have positive : 0 < rows * cols := Nat.mul_pos (by omega) (by omega)
    rw [Finset.card_erase_of_mem member, Finset.card_product, Finset.card_range, Finset.card_range]
    omega
  apply exists_free_of_tagged size taken holder _ few
  · intro b bound one
    have holds := held b bound one
    refine Finset.mem_erase.mpr ⟨?_, Finset.mem_product.mpr
      ⟨Finset.mem_range.mpr holds.1, Finset.mem_range.mpr holds.2.1⟩⟩
    intro same
    rw [same, empty] at holds
    cases holds.2.2
  · intro b b' bound bound' one one' same
    have here := (held b bound one).2.2
    have there := (held b' bound' one').2.2
    rw [same, there] at here
    exact (Option.some.inj here).symm

end ApnaOS.Lib
