import ApnaOS.Lib.StableQueue

/-!
# Seniority

Who has been waiting longer, read off the moments of a run, the latest first, and
queues in which the smaller key comes first and, of equal keys, the one that has
been waiting longer.
-/

set_option autoImplicit false

namespace ApnaOS.Lib

universe u v w

variable {α : Type u} {κ : Type v} {σ : Type w} [LinearOrder κ]

/-- `a` has been waiting ever since a moment at which `b` was not. -/
def Senior (Waits : σ → α → Prop) : List σ → α → α → Prop
  | [], _, _ => False
  | now :: before, a, b => Waits now a ∧ (¬ Waits now b ∨ Senior Waits before a b)

/-- `a` comes before `b`. -/
def Ahead (key : α → κ) (Waits : σ → α → Prop) (moments : List σ) (a b : α) : Prop :=
  key a < key b ∨ (key a = key b ∧ Senior Waits moments a b)

/-- Everybody in the queue comes before those behind. -/
def Lined (key : α → κ) (Waits : σ → α → Prop) (moments : List σ) (queue : List α) : Prop :=
  queue.Pairwise (Ahead key Waits moments)

theorem Ahead.le {key : α → κ} {Waits : σ → α → Prop} {moments : List σ} {a b : α}
    (ahead : Ahead key Waits moments a b) : key a ≤ key b := by
  rcases ahead with lower | ⟨same, _⟩
  · exact le_of_lt lower
  · exact le_of_eq same

namespace Lined

variable {key : α → κ} {Waits : σ → α → Prop} {moments : List σ} {queue : List α}

theorem congr (lined : Lined key Waits moments queue) {key' : α → κ}
    (same : ∀ a ∈ queue, key' a = key a) : Lined key' Waits moments queue := by
  refine List.Pairwise.imp_of_mem ?_ lined
  intro a b left right ahead
  rw [Ahead, same a left, same b right]
  exact ahead

theorem keep (lined : Lined key Waits moments queue) {rest : List α} (left : rest.Sublist queue)
    {now : σ} (waits : ∀ a ∈ rest, Waits now a) : Lined key Waits (now :: moments) rest := by
  refine List.Pairwise.imp_of_mem ?_ (List.Pairwise.sublist left lined)
  intro a b member _ ahead
  rcases ahead with lower | ⟨same, senior⟩
  · exact Or.inl lower
  · exact Or.inr ⟨same, waits a member, Or.inr senior⟩

theorem insert (lined : Lined key Waits moments queue) {x : α}
    (senior : ∀ a ∈ queue, Senior Waits moments a x) :
    Lined key Waits moments (insertByKey key x queue) := by
  induction queue with
  | nil => exact List.pairwise_singleton _ x
  | cons y rest ih =>
      obtain ⟨first, later⟩ := List.pairwise_cons.mp lined
      by_cases lower : key x < key y
      · rw [insertByKey_cons_of_lt key x rest lower]
        refine List.pairwise_cons.mpr ⟨?_, lined⟩
        intro b member
        rcases List.mem_cons.mp member with here | there
        · exact Or.inl (here ▸ lower)
        · exact Or.inl (lt_of_lt_of_le lower (first b there).le)
      · have notLower := not_lt.mp lower
        rw [insertByKey_cons_of_le key x rest notLower]
        refine List.pairwise_cons.mpr ⟨?_, ih later fun a member =>
          senior a (List.mem_cons_of_mem y member)⟩
        intro b member
        rcases (mem_insertByKey key x rest).mp member with here | there
        · rw [here]
          rcases lt_or_eq_of_le notLower with below | same
          · exact Or.inl below
          · exact Or.inr ⟨same, senior y List.mem_cons_self⟩
        · exact first b there

theorem arrive {now : σ} (lined : Lined key Waits (now :: moments) queue)
    (waits : ∀ a, Waits now a ↔ a ∈ queue) {x : α} (absent : x ∉ queue) :
    Lined key Waits (now :: moments) (insertByKey key x queue) :=
  lined.insert fun a member =>
    ⟨(waits a).mpr member, Or.inl fun waiting => absent ((waits x).mp waiting)⟩

end Lined

/-! ## Two with equal keys -/

theorem pair_sublist_insertByKey {key : α → κ} {queue : List α} {a b : α} (member : b ∈ queue)
    (same : key a = key b) (sorted : queue.Pairwise fun x y => key x ≤ key y) :
    [b, a].Sublist (insertByKey key a queue) := by
  induction queue with
  | nil => cases member
  | cons y rest ih =>
      obtain ⟨first, later⟩ := List.pairwise_cons.mp sorted
      rcases List.mem_cons.mp member with here | there
      · have notLower : key y ≤ key a := by rw [same, here]
        rw [insertByKey_cons_of_le key a rest notLower, here]
        have inserted : a ∈ insertByKey key a rest := (mem_insertByKey key a rest).mpr (Or.inl rfl)
        exact List.Sublist.cons_cons y (List.singleton_sublist.mpr inserted)
      · have notLower : key y ≤ key a := same ▸ first b there
        rw [insertByKey_cons_of_le key a rest notLower]
        exact List.Sublist.cons y (ih there later)

theorem sublist_insertByKey (key : α → κ) (x : α) (queue : List α) :
    queue.Sublist (insertByKey key x queue) :=
  List.sublist_orderedInsert x queue

theorem pair_sublist_total {queue : List α} {a b : α} (left : a ∈ queue) (right : b ∈ queue)
    (different : a ≠ b) : [a, b].Sublist queue ∨ [b, a].Sublist queue := by
  obtain ⟨front, back, rfl⟩ := List.append_of_mem left
  rcases List.mem_append.mp right with before | after
  · exact Or.inr ((List.singleton_sublist.mpr before).append
      (List.singleton_sublist.mpr List.mem_cons_self))
  · have later := (List.mem_cons.mp after).resolve_left different.symm
    exact Or.inl (List.Sublist.trans (List.cons_sublist_cons.mpr (List.singleton_sublist.mpr later))
      (List.sublist_append_right front _))

theorem pair_sublist_cons {queue : List α} {a b x : α} (front : [b, a].Sublist (x :: queue))
    (nodup : (x :: queue).Nodup) :
    (x = b ∧ a ∈ queue) ∨ (x ≠ b ∧ x ≠ a ∧ [b, a].Sublist queue) := by
  by_cases here : x = b
  · rw [here] at front
    exact Or.inl ⟨here, List.singleton_sublist.mp (List.cons_sublist_cons.mp front)⟩
  · have later := front.of_cons_of_ne (Ne.symm here)
    refine Or.inr ⟨here, ?_, later⟩
    intro same
    have member : a ∈ queue := later.subset (List.mem_cons_of_mem b List.mem_cons_self)
    exact (List.nodup_cons.mp nodup).1 (same ▸ member)

end ApnaOS.Lib
