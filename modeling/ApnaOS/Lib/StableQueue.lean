import Mathlib.Data.List.Pairwise
import Mathlib.Data.List.Nodup
import Mathlib.Data.List.Sort
import Mathlib.Order.Lattice

/-!
# Stable priority queues

A queue that serves the smallest key first and equal keys in order of arrival.
`arrived` lists what is waiting in order of arrival, `sorted` the order in which
it will be served.
-/

set_option autoImplicit false

namespace ApnaOS.Lib

universe u v

variable {α : Type u} {κ : Type v} [LinearOrder κ]

/-- `a` is served before `b`. -/
def Earlier (key : α → κ) (arrived : List α) (a b : α) : Prop :=
  key a < key b ∨ (key a = key b ∧ [a, b].Sublist arrived)

structure IsNext (key : α → κ) (arrived : List α) (x : α) : Prop where
  waiting : x ∈ arrived
  first : ∀ y ∈ arrived, y ≠ x → Earlier key arrived x y

structure Serves (key : α → κ) (arrived sorted : List α) : Prop where
  perm : sorted.Perm arrived
  ordered : sorted.Pairwise (Earlier key arrived)

/-- Put in front of the first with a larger key. -/
def insertByKey (key : α → κ) (x : α) (items : List α) : List α :=
  items.orderedInsert (fun a b => key a < key b) x

section InsertByKey

variable (key : α → κ) (x : α) (items : List α)

theorem insertByKey_cons_of_lt {y : α} (lower : key x < key y) :
    insertByKey key x (y :: items) = x :: y :: items :=
  List.orderedInsert_cons_of_le (fun a b => key a < key b) items lower

theorem insertByKey_cons_of_le {y : α} (lower : key y ≤ key x) :
    insertByKey key x (y :: items) = y :: insertByKey key x items :=
  List.orderedInsert_of_not_le (fun a b => key a < key b) items (not_lt.mpr lower)

theorem insertByKey_perm : (insertByKey key x items).Perm (x :: items) :=
  List.perm_orderedInsert _ _ _

theorem mem_insertByKey {y : α} : y ∈ insertByKey key x items ↔ y = x ∨ y ∈ items :=
  List.mem_orderedInsert _

theorem insertByKey_congr {key key' : α → κ} {x : α} {items : List α} (same : key' x = key x)
    (agree : ∀ y ∈ items, key' y = key y) : insertByKey key' x items = insertByKey key x items := by
  induction items with
  | nil => rfl
  | cons y items ih =>
      have here := agree y List.mem_cons_self
      by_cases lower : key x < key y
      · rw [insertByKey_cons_of_lt key x items lower,
          insertByKey_cons_of_lt key' x items (by rwa [same, here])]
      · have le := not_lt.mp lower
        rw [insertByKey_cons_of_le key x items le,
          insertByKey_cons_of_le key' x items (by rwa [same, here]),
          ih fun z later => agree z (List.mem_cons_of_mem y later)]

theorem insertByKey_split (sorted : items.Pairwise fun a b => key a ≤ key b) :
    ∃ low high, items = low ++ high ∧ insertByKey key x items = low ++ x :: high ∧
      (∀ a ∈ low, key a ≤ key x) ∧ ∀ a ∈ high, key x < key a := by
  induction items with
  | nil => exact ⟨[], [], rfl, rfl, by simp, by simp⟩
  | cons y items ih =>
      obtain ⟨first, rest⟩ := List.pairwise_cons.mp sorted
      by_cases lower : key x < key y
      · refine ⟨[], y :: items, rfl, insertByKey_cons_of_lt key x items lower, by simp, ?_⟩
        intro a member
        rcases List.mem_cons.mp member with here | later
        · rw [here]
          exact lower
        · exact lt_of_lt_of_le lower (first a later)
      · obtain ⟨low, high, split, order, below, above⟩ := ih rest
        have le := not_lt.mp lower
        refine ⟨y :: low, high, by rw [split, List.cons_append], ?_, ?_, above⟩
        · rw [insertByKey_cons_of_le key x items le, order, List.cons_append]
        · intro a member
          rcases List.mem_cons.mp member with here | later
          · rw [here]
            exact le
          · exact below a later

end InsertByKey

namespace Serves

variable {key : α → κ} {arrived sorted low high rest : List α} {x : α}

theorem empty (key : α → κ) : Serves key [] [] := ⟨List.Perm.refl _, List.Pairwise.nil⟩

theorem sorted_keys (serves : Serves key arrived sorted) :
    sorted.Pairwise fun a b => key a ≤ key b := by
  apply serves.ordered.imp
  intro a b earlier
  rcases earlier with lower | ⟨same, _⟩
  · exact le_of_lt lower
  · exact le_of_eq same

theorem congr (serves : Serves key arrived sorted) {key' : α → κ}
    (same : ∀ a ∈ arrived, key' a = key a) : Serves key' arrived sorted where
  perm := serves.perm
  ordered := by
    apply serves.ordered.imp_of_mem
    intro a b left right earlier
    rw [Earlier, same a (serves.perm.mem_iff.mp left), same b (serves.perm.mem_iff.mp right)]
    exact earlier

theorem insert (serves : Serves key arrived (low ++ high)) (below : ∀ a ∈ low, key a ≤ key x)
    (above : ∀ a ∈ high, key x < key a) : Serves key (arrived ++ [x]) (low ++ x :: high) where
  perm := by
    apply List.perm_middle.trans
    exact (List.Perm.cons x serves.perm).trans (List.perm_append_singleton x arrived).symm
  ordered := by
    have kept : (low ++ high).Pairwise (Earlier key (arrived ++ [x])) := by
      apply serves.ordered.imp
      intro a b earlier
      rcases earlier with lower | ⟨same, order⟩
      · exact Or.inl lower
      · exact Or.inr ⟨same, order.trans (List.sublist_append_left ..)⟩
    obtain ⟨lows, highs, across⟩ := List.pairwise_append.mp kept
    rw [List.pairwise_append, List.pairwise_cons]
    refine ⟨lows, ⟨fun b member => Or.inl (above b member), highs⟩, ?_⟩
    intro a left b right
    rcases List.mem_cons.mp right with here | there
    · rw [here]
      rcases lt_or_eq_of_le (below a left) with lower | same
      · exact Or.inl lower
      · have waiting : a ∈ arrived := serves.perm.mem_iff.mp (List.mem_append_left high left)
        exact Or.inr ⟨same, (List.singleton_sublist.mpr waiting).append (List.Sublist.refl [x])⟩
    · exact across a left b there

theorem insertByKey (serves : Serves key arrived sorted) (x : α) :
    Serves key (arrived ++ [x]) (insertByKey key x sorted) := by
  obtain ⟨low, high, split, order, below, above⟩ := insertByKey_split key x sorted serves.sorted_keys
  rw [order]
  rw [split] at serves
  exact serves.insert below above

theorem head (serves : Serves key arrived (x :: rest)) : IsNext key arrived x where
  waiting := serves.perm.mem_iff.mp List.mem_cons_self
  first := by
    intro y waiting different
    rcases List.mem_cons.mp (serves.perm.mem_iff.mpr waiting) with same | later
    · exact absurd same different
    · exact (List.pairwise_cons.mp serves.ordered).1 y later

theorem tail [DecidableEq α] (serves : Serves key arrived (x :: rest)) (nodup : arrived.Nodup) :
    Serves key (arrived.erase x) rest where
  perm := by
    have erased := serves.perm.erase x
    rwa [List.erase_cons_head] at erased
  ordered := by
    have absent : x ∉ rest := (List.nodup_cons.mp (serves.perm.nodup_iff.mpr nodup)).1
    apply (List.pairwise_cons.mp serves.ordered).2.imp_of_mem
    intro a b left right earlier
    rcases earlier with lower | ⟨same, order⟩
    · exact Or.inl lower
    · refine Or.inr ⟨same, ?_⟩
      have erased := order.erase x
      rwa [List.erase_of_not_mem] at erased
      intro member
      rcases List.mem_cons.mp member with here | there
      · exact absent (here ▸ left)
      · exact absent (List.mem_singleton.mp there ▸ right)

theorem nil_iff (serves : Serves key arrived sorted) : sorted = [] ↔ arrived = [] :=
  ⟨fun empty => (empty ▸ serves.perm).nil_eq.symm, fun empty => (empty ▸ serves.perm).eq_nil⟩

end Serves

end ApnaOS.Lib
