import Mathlib.Data.List.Basic
import Mathlib.Data.List.GetD
import Mathlib.Logic.Function.Basic

/-!
# Lists in an array

An array is a function of its index.  A list lies in it from some index on, or is ended there
by a mark that is not in the list.
-/

set_option autoImplicit false

namespace ApnaOS.Lib

open Function (update update_self update_of_ne)

universe u

variable {α : Type u}

/-- The array holds the items from `start` on. -/
def HasSlice (array : Nat → α) : Nat → List α → Prop
  | _, [] => True
  | start, item :: rest => array start = item ∧ HasSlice array (start + 1) rest

namespace HasSlice

variable {array : Nat → α} {start : Nat} {items front back : List α}

theorem append : HasSlice array start (front ++ back) ↔
    HasSlice array start front ∧ HasSlice array (start + front.length) back := by
  induction front generalizing start with
  | nil => exact (and_iff_right trivial).symm
  | cons item rest ih =>
      have next : start + (item :: rest).length = start + 1 + rest.length := by
        rw [List.length_cons]
        omega
      rw [List.cons_append, HasSlice, HasSlice, ih, next, and_assoc]

theorem iff_forall : HasSlice array start items ↔
    ∀ i (inside : i < items.length), array (start + i) = items[i] := by
  induction items generalizing start with
  | nil => exact iff_of_true trivial fun i inside => absurd inside (Nat.not_lt_zero i)
  | cons item rest ih =>
      rw [HasSlice, ih]
      constructor
      · rintro ⟨here, later⟩ i inside
        cases i with
        | zero => exact here
        | succ i =>
            have next : start + (i + 1) = start + 1 + i := by omega
            rw [next]
            exact later i (Nat.lt_of_succ_lt_succ inside)
      · intro all
        refine ⟨all 0 (Nat.zero_lt_succ _), ?_⟩
        intro i inside
        have next : start + 1 + i = start + (i + 1) := by omega
        rw [next]
        exact all (i + 1) (Nat.succ_lt_succ inside)

theorem congr (slice : HasSlice array start items) {array' : Nat → α}
    (same : ∀ k, start ≤ k → k < start + items.length → array' k = array k) :
    HasSlice array' start items := by
  rw [iff_forall] at slice ⊢
  intro i inside
  rw [same (start + i) (Nat.le_add_right _ _) (Nat.add_lt_add_left inside _)]
  exact slice i inside

theorem update_outside (slice : HasSlice array start items) {k : Nat} (item : α)
    (outside : k < start ∨ start + items.length ≤ k) :
    HasSlice (update array k item) start items := by
  apply slice.congr
  intro i low high
  apply update_of_ne
  omega

theorem push (slice : HasSlice array start items) (item : α) :
    HasSlice (update array (start + items.length) item) start (items ++ [item]) := by
  rw [append]
  exact ⟨slice.update_outside item (Or.inr (Nat.le_refl _)), update_self .., trivial⟩

end HasSlice

/-- The items lie from `start` on, with the first `mark` behind them. -/
structure EndsAt (mark : α) (array : Nat → α) (start : Nat) (items : List α) : Prop where
  unmarked : mark ∉ items
  slice : HasSlice array start (items ++ [mark])

namespace EndsAt

variable {mark : α} {array : Nat → α} {start : Nat} {items items' : List α}

theorem of_slice (slice : HasSlice array start items) (unmarked : mark ∉ items) :
    EndsAt mark (update array (start + items.length) mark) start items :=
  ⟨unmarked, slice.push mark⟩

theorem of_getD (unmarked : mark ∉ items) : EndsAt mark (fun i => items.getD i mark) 0 items := by
  refine ⟨unmarked, HasSlice.iff_forall.mpr ?_⟩
  intro i inside
  rw [Nat.zero_add]
  by_cases item : i < items.length
  · rw [List.getD_eq_getElem _ _ item, List.getElem_append_left item]
  · have last : i = items.length := by
      rw [List.length_append, List.length_singleton] at inside
      omega
    rw [List.getD_eq_default _ _ (Nat.le_of_not_lt item)]
    exact (List.getElem_concat_length last _).symm

theorem nil_iff : EndsAt mark array start [] ↔ array start = mark := by
  constructor
  · exact fun ends => ends.slice.1
  · exact fun here => ⟨List.not_mem_nil, here, trivial⟩

theorem cons_iff {item : α} : EndsAt mark array start (item :: items) ↔
    array start = item ∧ item ≠ mark ∧ EndsAt mark array (start + 1) items := by
  constructor
  · intro ends
    have different := ends.unmarked
    rw [List.mem_cons, not_or] at different
    exact ⟨ends.slice.1, Ne.symm different.1, different.2, ends.slice.2⟩
  · rintro ⟨here, different, ends⟩
    refine ⟨?_, here, ends.slice⟩
    rw [List.mem_cons, not_or]
    exact ⟨Ne.symm different, ends.unmarked⟩

theorem of_ne (ends : EndsAt mark array start items) (different : array start ≠ mark) :
    ∃ rest, items = array start :: rest ∧ EndsAt mark array (start + 1) rest := by
  cases items with
  | nil => exact absurd (nil_iff.mp ends) different
  | cons item rest =>
      obtain ⟨here, _, later⟩ := cons_iff.mp ends
      exact ⟨rest, by rw [here], later⟩

theorem of_eq (ends : EndsAt mark array start items) (same : array start = mark) : items = [] := by
  cases items with
  | nil => rfl
  | cons item rest =>
      obtain ⟨here, different, _⟩ := cons_iff.mp ends
      exact absurd (here.symm.trans same) different

theorem unique (ends : EndsAt mark array start items) (ends' : EndsAt mark array start items') :
    items = items' := by
  induction items generalizing start items' with
  | nil => exact (ends'.of_eq (nil_iff.mp ends)).symm
  | cons item rest ih =>
      obtain ⟨here, different, later⟩ := cons_iff.mp ends
      rw [← here] at different
      obtain ⟨rest', found, later'⟩ := ends'.of_ne different
      rw [found, here, ih later later']

theorem start_eq_iff (ends : EndsAt mark array start items) : array start = mark ↔ items = [] := by
  constructor
  · exact ends.of_eq
  · intro none_left
    rw [none_left] at ends
    exact nil_iff.mp ends

theorem drop (ends : EndsAt mark array start items) (n : Nat) (inside : n ≤ items.length) :
    EndsAt mark array (start + n) (items.drop n) := by
  refine ⟨fun member => ends.unmarked (List.mem_of_mem_drop member), ?_⟩
  have slice := ends.slice
  rw [← List.take_append_drop n items, List.append_assoc, HasSlice.append, List.length_take,
    Nat.min_eq_left inside] at slice
  exact slice.2

theorem mark_behind (ends : EndsAt mark array start items) :
    array (start + items.length) = mark :=
  (HasSlice.append.mp ends.slice).2.1

theorem congr (ends : EndsAt mark array start items) {array' : Nat → α}
    (same : ∀ k, start ≤ k → k ≤ start + items.length → array' k = array k) :
    EndsAt mark array' start items := by
  refine ⟨ends.unmarked, ends.slice.congr ?_⟩
  intro k low high
  rw [List.length_append, List.length_singleton] at high
  exact same k low (by omega)

theorem cut {front back : List α} (ends : EndsAt mark array start (front ++ back)) :
    EndsAt mark (update array (start + front.length) mark) start front := by
  have slice := ends.slice
  rw [List.append_assoc, HasSlice.append] at slice
  exact of_slice slice.1 fun member => ends.unmarked (List.mem_append_left back member)

theorem update_outside (ends : EndsAt mark array start items) {k : Nat} (item : α)
    (outside : k < start ∨ start + items.length < k) :
    EndsAt mark (update array k item) start items := by
  refine ⟨ends.unmarked, ends.slice.update_outside item ?_⟩
  rw [List.length_append, List.length_singleton]
  omega

end EndsAt

/-! ## Reversing in place -/

/-- The item `j` and the one as far from the end of the first `n` change places. -/
def swapEnds (n : Nat) (array : Nat → α) (j : Nat) : Nat → α :=
  let temp := array j
  let array := update array j (array (n - j - 1))
  update array (n - j - 1) temp

/-- `for (j = 0; j < n / 2; j++)` with the two items of each round. -/
def reverseLoop (array : Nat → α) (n : Nat) : Nat → α :=
  (List.range (n / 2)).foldl (swapEnds n) array

theorem swapEnds_apply (array : Nat → α) {n j : Nat} (below : j < n / 2) (k : Nat) :
    swapEnds n array j k =
      if k = j then array (n - j - 1) else if k = n - j - 1 then array j else array k := by
  have apart : j ≠ n - j - 1 := by omega
  rw [swapEnds]
  by_cases first : k = j
  · rw [if_pos first, first, update_of_ne apart, update_self]
  · rw [if_neg first]
    by_cases last : k = n - j - 1
    · rw [if_pos last, last, update_self]
    · rw [if_neg last, update_of_ne last, update_of_ne first]

theorem foldl_swapEnds_apply (array : Nat → α) {n m : Nat} (below : m ≤ n / 2) (k : Nat) :
    (List.range m).foldl (swapEnds n) array k =
      if k < m ∨ (n - m ≤ k ∧ k < n) then array (n - 1 - k) else array k := by
  induction m generalizing k with
  | zero =>
      rw [if_neg (by omega)]
      rfl
  | succ m ih =>
      have left : (List.range m).foldl (swapEnds n) array m = array m := by
        rw [ih (by omega), if_neg (by omega)]
      have right : (List.range m).foldl (swapEnds n) array (n - m - 1) = array (n - m - 1) := by
        rw [ih (by omega), if_neg (by omega)]
      rw [List.range_succ, List.foldl_append, List.foldl_cons, List.foldl_nil,
        swapEnds_apply _ (by omega), left, right]
      by_cases first : k = m
      · rw [if_pos first, if_pos (by omega)]
        exact congrArg array (by omega)
      rw [if_neg first]
      by_cases last : k = n - m - 1
      · rw [if_pos last, if_pos (by omega)]
        exact congrArg array (by omega)
      rw [if_neg last, ih (by omega)]
      apply if_congr _ rfl rfl
      omega

theorem reverseLoop_apply (array : Nat → α) (n k : Nat) :
    reverseLoop array n k = if k < n then array (n - 1 - k) else array k := by
  rw [reverseLoop, foldl_swapEnds_apply array (Nat.le_refl _)]
  by_cases inside : k < n
  · rw [if_pos inside]
    by_cases moved : k < n / 2 ∨ (n - n / 2 ≤ k ∧ k < n)
    · rw [if_pos moved]
    · -- The item in the middle stays.
      rw [if_neg moved]
      exact congrArg array (by omega)
  · rw [if_neg inside, if_neg (by omega)]

theorem HasSlice.reverse {array : Nat → α} {items : List α} (slice : HasSlice array 0 items) :
    HasSlice (reverseLoop array items.length) 0 items.reverse := by
  rw [HasSlice.iff_forall] at slice ⊢
  intro i inside
  rw [List.length_reverse] at inside
  have across : items.length - 1 - i < items.length := by omega
  have there := slice (items.length - 1 - i) across
  rw [Nat.zero_add] at there
  rw [Nat.zero_add, reverseLoop_apply, if_pos inside, there, List.getElem_reverse]

theorem EndsAt.reverse {mark : α} {array : Nat → α} {items : List α}
    (ends : EndsAt mark array 0 items) :
    EndsAt mark (reverseLoop array items.length) 0 items.reverse := by
  have slices := HasSlice.append.mp ends.slice
  refine ⟨fun member => ends.unmarked (List.mem_reverse.mp member), ?_⟩
  rw [HasSlice.append]
  refine ⟨slices.1.reverse, ?_, trivial⟩
  rw [Nat.zero_add, List.length_reverse, reverseLoop_apply, if_neg (Nat.lt_irrefl _)]
  have last := ends.mark_behind
  rwa [Nat.zero_add] at last

end ApnaOS.Lib
