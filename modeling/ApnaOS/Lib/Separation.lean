import Mathlib.Data.List.Perm.Basic

/-!
# Separate pieces of a state

A piece is a property of a state that depends only on the locations it owns.
Pieces are separate when no location is owned twice.  Writing to locations of
one piece then leaves all the others as they were, which is the only rule a
pointer program needs besides taking a piece apart and putting it together.
-/

set_option autoImplicit false

namespace ApnaOS.Lib

universe u v

/-- `same s s' l`: location `l` holds in `s'` what it holds in `s`. -/
structure Piece {State : Type u} {Location : Type v} (same : State → State → Location → Prop) where
  owns : List Location
  Holds : State → Prop
  stable : ∀ {state state'}, (∀ l ∈ owns, same state state' l) → Holds state → Holds state'

variable {State : Type u} {Location : Type v} {same : State → State → Location → Prop}

def owned (pieces : List (Piece same)) : List Location := pieces.flatMap Piece.owns

structure Separate (state : State) (pieces : List (Piece same)) : Prop where
  nodup : (owned pieces).Nodup
  holds : ∀ piece ∈ pieces, piece.Holds state

theorem owned_cons (piece : Piece same) (pieces : List (Piece same)) :
    owned (piece :: pieces) = piece.owns ++ owned pieces := rfl

theorem owned_append (front back : List (Piece same)) :
    owned (front ++ back) = owned front ++ owned back := List.flatMap_append

theorem owned_perm {pieces pieces' : List (Piece same)} (perm : pieces.Perm pieces') :
    (owned pieces).Perm (owned pieces') := perm.flatMap_right _

namespace Separate

variable {state state' : State} {piece piece' : Piece same} {pieces pieces' : List (Piece same)}

theorem perm (separate : Separate state pieces) (perm : pieces.Perm pieces') :
    Separate state pieces' where
  nodup := (owned_perm perm).nodup_iff.mp separate.nodup
  holds := fun piece member => separate.holds piece (perm.mem_iff.mpr member)

theorem head (separate : Separate state (piece :: pieces)) : piece.Holds state :=
  separate.holds piece List.mem_cons_self

theorem tail (separate : Separate state (piece :: pieces)) : Separate state pieces where
  nodup := (List.nodup_append.mp separate.nodup).2.1
  holds := fun other member => separate.holds other (List.mem_cons_of_mem piece member)

theorem not_owned (separate : Separate state (piece :: pieces)) {l : Location}
    (here : l ∈ piece.owns) : l ∉ owned pieces := by
  intro there
  exact (List.nodup_append.mp separate.nodup).2.2 l here l there rfl

theorem pick (separate : Separate state pieces) (i : Nat) (here : pieces[i]? = some piece) :
    Separate state (piece :: pieces.eraseIdx i) := by
  apply separate.perm
  obtain ⟨bound, rfl⟩ := List.getElem?_eq_some_iff.mp here
  exact (List.getElem_cons_eraseIdx_perm bound).symm

theorem alloc (separate : Separate state pieces) (nodup : piece.owns.Nodup)
    (unowned : ∀ l ∈ piece.owns, l ∉ owned pieces)
    (outside : ∀ l, l ∉ piece.owns → same state state' l) (holds : piece.Holds state') :
    Separate state' (piece :: pieces) where
  nodup := by
    rw [owned_cons, List.nodup_append]
    refine ⟨nodup, separate.nodup, ?_⟩
    intro l here l' there equal
    rw [← equal] at there
    exact unowned l here there
  holds := by
    intro other member
    rcases List.mem_cons.mp member with here | there
    · rw [here]
      exact holds
    · refine other.stable (fun l owned_there => outside l ?_) (separate.holds other there)
      intro owned_here
      exact unowned l owned_here (List.mem_flatMap.mpr ⟨other, there, owned_there⟩)

/-- The frame rule: a step that changes only what the first piece owns. -/
theorem write (separate : Separate state (piece :: pieces))
    (outside : ∀ l, l ∉ piece.owns → same state state' l)
    (owns : piece'.owns = piece.owns) (holds : piece'.Holds state') :
    Separate state' (piece' :: pieces) := by
  have nodup : piece.owns.Nodup := (List.nodup_append.mp separate.nodup).1
  rw [← owns] at outside nodup
  refine separate.tail.alloc nodup ?_ outside holds
  intro l here
  rw [owns] at here
  exact separate.not_owned here

theorem unfold (parts : List (Piece same)) (owns : piece.owns.Perm (owned parts))
    (holds : piece.Holds state ↔ ∀ part ∈ parts, part.Holds state) :
    Separate state (piece :: pieces) ↔ Separate state (parts ++ pieces) := by
  have owned_same : (owned (piece :: pieces)).Perm (owned (parts ++ pieces)) := by
    rw [owned_cons, owned_append]
    exact owns.append_right _
  constructor
  · intro separate
    refine ⟨owned_same.nodup_iff.mp separate.nodup, ?_⟩
    intro part member
    rcases List.mem_append.mp member with here | there
    · exact holds.mp separate.head part here
    · exact separate.tail.holds part there
  · intro separate
    refine ⟨owned_same.nodup_iff.mpr separate.nodup, ?_⟩
    intro part member
    rcases List.mem_cons.mp member with here | there
    · rw [here]
      exact holds.mpr fun part member => separate.holds part (List.mem_append_left _ member)
    · exact separate.holds part (List.mem_append_right _ there)

end Separate

end ApnaOS.Lib
