import ApnaOS.Keyboard.CStrings
import ApnaOS.Lib.Splitter
import Mathlib.Algebra.Order.BigOperators.Group.List

/-!
# strtok

`strtok` keeps its place in a static pointer and writes terminators into the string it cuts.
Its tokens are those of a splitter that keeps a position in the text the string held at first.
-/

set_option autoImplicit false

namespace ApnaOS.StringOps

open ApnaOS.Lib
open Function (update update_apply update_of_ne update_eq_self_iff)

/-! ## The code -/

/-- `while (*s)` of `strchr` from offset `i`; a null pointer is `none`. -/
def strchrFrom (s : Bytes) (c : Byte) : Nat → Nat → Option (Option Nat)
  | 0, _ => none
  | fuel + 1, i =>
      if s i ≠ 0 then
        if s i = c then some (some i) else strchrFrom s c fuel (i + 1)
      else some none

def strchr (s : Bytes) (c : Byte) (fuel : Nat) : Option (Option Nat) := strchrFrom s c fuel 0

/-- `while (*static_str && strchr(delim, *static_str)) static_str++;`, and with `found` false the
loop on `!strchr(..)`. -/
def strtokLoop (memory delim : Bytes) (found : Bool) : Nat → Nat → Option Nat
  | 0, _ => none
  | fuel + 1, staticStr =>
      if memory staticStr ≠ 0 then do
        let result ← strchr delim (memory staticStr) fuel
        if result.isSome = found then strtokLoop memory delim found fuel (staticStr + 1)
        else pure staticStr
      else pure staticStr

structure Strtok where
  memory : Bytes
  staticStr : Option Nat

def strtok (state : Strtok) (str : Option Nat) (delim : Bytes) (fuel : Nat) :
    Option (Option Nat × Strtok) :=
  match str.or state.staticStr with
  | none => pure (none, { state with staticStr := none })
  | some staticStr => do
      let token ← strtokLoop state.memory delim true fuel staticStr
      if state.memory token = 0 then pure (none, { state with staticStr := some token })
      else
        let stop ← strtokLoop state.memory delim false fuel token
        if state.memory stop ≠ 0 then
          pure (some token, { memory := update state.memory stop 0, staticStr := some (stop + 1) })
        else pure (some token, { state with staticStr := some stop })

/-- `strtok(str, D0)`, `strtok(NULL, D1)`, ..: the pointers, and the state after the calls. -/
def strtokCalls (fuel : Nat) :
    Strtok → Option Nat → List Bytes → Option (List (Option Nat) × Strtok)
  | state, _, [] => pure ([], state)
  | state, str, delim :: delims => do
      let (token, state) ← strtok state str delim fuel
      let (tokens, state) ← strtokCalls fuel state none delims
      pure (token :: tokens, state)

/-! ## The loops -/

theorem strchrFrom_isSome {s : Bytes} {i fuel : Nat} {chars : List Byte} (ends : EndsAt 0 s i chars)
    {c : Byte} (enough : chars.length < fuel) :
    ∃ result, strchrFrom s c fuel i = some result ∧ result.isSome = chars.contains c := by
  induction fuel generalizing i chars with
  | zero => exact absurd enough (Nat.not_lt_zero _)
  | succ fuel ih =>
      rw [strchrFrom]
      by_cases running : s i ≠ 0
      · obtain ⟨rest, found, later⟩ := ends.of_ne running
        rw [if_pos running, found, List.contains_cons]
        by_cases here : s i = c
        · rw [if_pos here, here, beq_self_eq_true, Bool.true_or]
          exact ⟨_, rfl, rfl⟩
        · rw [found, List.length_cons] at enough
          rw [if_neg here, beq_eq_false_iff_ne.mpr (Ne.symm here), Bool.false_or]
          exact ih later (Nat.lt_of_succ_lt_succ enough)
      · rw [if_neg running, ends.of_eq (not_not.mp running)]
        exact ⟨none, rfl, rfl⟩

theorem strchr_isSome (delim : CString) {c : Byte} {fuel : Nat}
    (enough : delim.chars.length < fuel) :
    ∃ result, strchr delim.memory c fuel = some result ∧ result.isSome = delim.chars.contains c :=
  strchrFrom_isSome delim.ends enough

theorem strtokLoop_eq {memory : Bytes} {p fuel : Nat} {rest : List Byte}
    (ends : EndsAt 0 memory p rest) (delim : CString) (found : Bool)
    (enough : rest.length + delim.chars.length < fuel) :
    strtokLoop memory delim.memory found fuel p =
      some (p + (rest.takeWhile fun c => delim.chars.contains c == found).length) := by
  induction fuel generalizing p rest with
  | zero => exact absurd enough (Nat.not_lt_zero _)
  | succ fuel ih =>
      rw [strtokLoop]
      by_cases running : memory p ≠ 0
      · obtain ⟨later, split, ends'⟩ := ends.of_ne running
        rw [split, List.length_cons] at enough
        have short : delim.chars.length < fuel := by omega
        obtain ⟨result, returned, isSome⟩ := @strchr_isSome delim (memory p) fuel short
        rw [if_pos running, returned, split, List.takeWhile_cons, ← isSome, Option.bind_eq_bind,
          Option.bind_some]
        by_cases wanted : result.isSome = found
        · rw [if_pos wanted, if_pos (beq_iff_eq.mpr wanted), ih ends' (by omega), List.length_cons]
          exact congrArg some (by omega)
        · rw [if_neg wanted, if_neg (fun equal => wanted (beq_iff_eq.mp equal))]
          rfl
      · rw [if_neg running, ends.of_eq (not_not.mp running)]
        rfl

/-! ## One call -/

def CString.isDelim (delim : CString) (c : Byte) : Bool := delim.chars.contains c

structure Remains (text : List Byte) (memory : Bytes) (position : Nat) : Prop where
  inside : position ≤ text.length
  ends : EndsAt 0 memory position (text.drop position)

namespace Remains

variable {text : List Byte} {memory : Bytes} {position : Nat} {delim : CString} {fuel : Nat}

theorem running_iff (remains : Remains text memory position) :
    memory position ≠ 0 ↔ position < text.length := by
  rw [ne_eq, remains.ends.start_eq_iff, List.drop_eq_nil_iff]
  omega

theorem move (remains : Remains text memory position) {k : Nat} (later : position ≤ k)
    (inside : k ≤ text.length) : Remains text memory k := by
  have ends := remains.ends.drop (k - position) (by rw [List.length_drop]; omega)
  rw [List.drop_drop, Nat.add_sub_of_le later] at ends
  exact ⟨inside, ends⟩

theorem move_span (remains : Remains text memory position) (p : Byte → Bool) :
    Remains text memory (spanEnd text position p) :=
  remains.move le_spanEnd (spanEnd_le remains.inside)

theorem update (remains : Remains text memory position) {k : Nat} (before : k < position)
    (c : Byte) : Remains text (update memory k c) position :=
  ⟨remains.inside, remains.ends.update_outside c (Or.inl before)⟩

theorem cut (remains : Remains text memory position) (p : Byte → Bool) :
    EndsAt 0 (Function.update memory (spanEnd text position p) 0) position
      ((text.drop position).takeWhile p) := by
  have ends := remains.ends
  rw [← List.takeWhile_append_dropWhile (p := p) (l := text.drop position)] at ends
  exact ends.cut

theorem skip (remains : Remains text memory position)
    (enough : text.length + delim.chars.length < fuel) :
    strtokLoop memory delim.memory true fuel position =
      some (spanEnd text position delim.isDelim) := by
  have short := (List.drop_sublist position text).length_le
  rw [strtokLoop_eq remains.ends delim true (by omega)]
  simp only [beq_true]
  rfl

theorem word (remains : Remains text memory position)
    (enough : text.length + delim.chars.length < fuel) :
    strtokLoop memory delim.memory false fuel position =
      some (spanEnd text position fun c => !delim.isDelim c) := by
  have short := (List.drop_sublist position text).length_le
  rw [strtokLoop_eq remains.ends delim false (by omega)]
  simp only [beq_false]
  rfl

end Remains

/-- Nothing is stored below a position, nor over a terminator. -/
def Keeps (memory : Bytes) (position : Nat) (after : Bytes) : Prop :=
  ∀ k, k < position ∨ memory k = 0 → after k = memory k

theorem Keeps.trans {memory middle after : Bytes} {position next : Nat}
    (first : Keeps memory position middle) (second : Keeps middle next after)
    (later : position ≤ next) : Keeps memory position after := by
  intro k kept
  have same := first k kept
  rw [← same]
  apply second
  cases kept with
  | inl low => exact Or.inl (Nat.lt_of_lt_of_le low later)
  | inr zero => exact Or.inr (same.trans zero)

theorem Keeps.endsAt {memory after : Bytes} {position start : Nat} {chars : List Byte}
    (keeps : Keeps memory position after) (ends : EndsAt 0 memory start chars)
    (before : start + chars.length ≤ position) : EndsAt 0 after start chars := by
  apply ends.congr
  intro k _ high
  apply keeps
  rcases Nat.lt_or_ge k position with low | reached
  · exact Or.inl low
  · have last : k = start + chars.length := by omega
    rw [last]
    exact Or.inr ends.mark_behind

/-- A call from a position on, where `next` is the reference's token and its next position. -/
structure Cuts (text : List Byte) (memory : Bytes) (position : Nat)
    (next : Option (List Byte) × Nat) (pointer : Option Nat) (after : Bytes) : Prop where
  remains : Remains text after next.2
  keeps : Keeps memory position after
  token : Option.Rel (fun start chars => EndsAt 0 after start chars ∧ start + chars.length ≤ next.2)
    pointer next.1

theorem strtok_cuts {text : List Byte} {memory : Bytes} {position fuel : Nat}
    (remains : Remains text memory position) (delim : CString)
    (enough : text.length + delim.chars.length < fuel) :
    ∃ pointer after,
      strtok ⟨memory, some position⟩ none delim.memory fuel =
        some (pointer, ⟨after, some (nextToken text position delim.isDelim).2⟩) ∧
      Cuts text memory position (nextToken text position delim.isDelim) pointer after := by
  have atStart := remains.move_span delim.isDelim
  have atStop := atStart.move_span fun c => !delim.isDelim c
  have later : position ≤ spanEnd text (spanEnd text position delim.isDelim)
      fun c => !delim.isDelim c := le_spanEnd.trans le_spanEnd
  rw [strtok, Option.none_or]
  simp only [remains.skip enough, Option.bind_eq_bind, Option.bind_some]
  by_cases more : spanEnd text position delim.isDelim < text.length
  · have word := atStart.cut fun c => !delim.isDelim c
    rw [if_neg (atStart.running_iff.mpr more), atStart.word enough, Option.bind_some, nextToken,
      if_pos more]
    by_cases ended : spanEnd text (spanEnd text position delim.isDelim)
        (fun c => !delim.isDelim c) < text.length
    · rw [if_pos (atStop.running_iff.mpr ended), if_pos ended]
      refine ⟨_, _, rfl, ?_, ?_, ?_⟩
      · exact (atStop.move (Nat.le_succ _) ended).update (Nat.lt_succ_self _) 0
      · rintro k (low | zero)
        · exact update_of_ne (by omega) _ _
        · rw [update_apply, zero]
          split <;> rfl
      · exact Option.Rel.some ⟨word, Nat.le_succ _⟩
    · have finished : memory (spanEnd text (spanEnd text position delim.isDelim)
          fun c => !delim.isDelim c) = 0 :=
        not_not.mp fun running => ended (atStop.running_iff.mp running)
      rw [update_eq_self_iff.mpr finished.symm] at word
      rw [if_neg (not_not.mpr finished), if_neg ended]
      exact ⟨_, _, rfl, atStop, fun _ _ => rfl, Option.Rel.some ⟨word, Nat.le_refl _⟩⟩
  · have ended : memory (spanEnd text position delim.isDelim) = 0 :=
      not_not.mp fun running => more (atStart.running_iff.mp running)
    rw [if_pos ended, nextToken_of_exhausted more]
    exact ⟨none, memory, rfl, atStart, fun _ _ => rfl, Option.Rel.none⟩

/-! ## All calls -/

theorem strtokCalls_cuts {text : List Byte} {memory : Bytes} {position fuel : Nat}
    (remains : Remains text memory position) (delims : List CString)
    (enough : ∀ delim ∈ delims, text.length + delim.chars.length < fuel) :
    ∃ pointers after,
      strtokCalls fuel ⟨memory, some position⟩ none (delims.map CString.memory) =
        some (pointers,
          ⟨after, some (tokensFrom text position (delims.map CString.isDelim)).2⟩) ∧
      Keeps memory position after ∧
      List.Forall₂ (Option.Rel (EndsAt 0 after)) pointers
        (tokensFrom text position (delims.map CString.isDelim)).1 := by
  induction delims generalizing memory position with
  | nil => exact ⟨[], memory, rfl, fun _ _ => rfl, List.Forall₂.nil⟩
  | cons delim delims ih =>
      obtain ⟨pointer, middle, called, cuts⟩ :=
        strtok_cuts remains delim (enough delim List.mem_cons_self)
      obtain ⟨pointers, after, calls, keeps, tokens⟩ :=
        ih cuts.remains fun later member => enough later (List.mem_cons_of_mem delim member)
      have token : Option.Rel (EndsAt 0 after) pointer
          (nextToken text position delim.isDelim).1 := by
        have found := cuts.token
        generalize (nextToken text position delim.isDelim).1 = result at found ⊢
        cases found with
        | some word => exact Option.Rel.some (keeps.endsAt word.1 word.2)
        | none => exact Option.Rel.none
      refine ⟨pointer :: pointers, after, ?_, cuts.keeps.trans keeps le_nextToken, ?_⟩
      · rw [List.map_cons, List.map_cons, strtokCalls, called, Option.bind_eq_bind,
          Option.bind_some]
        simp only [calls]
        rfl
      · exact List.Forall₂.cons token tokens

/-- The results of `strtok(s, D0)`, `strtok(NULL, D1)`, .., read as strings after all calls;
`before` is what the static pointer held. -/
def Tokenizes (s : CString) (before : Option Nat) (delims : List CString)
    (tokens : List (Option (List Byte))) : Prop :=
  ∃ enough, ∀ fuel, enough ≤ fuel → ∃ pointers after,
    strtokCalls fuel ⟨s.memory, before⟩ (some 0) (delims.map CString.memory) =
      some (pointers, after) ∧
    List.Forall₂ (Option.Rel (EndsAt 0 after.memory)) pointers tokens

theorem tokenizes_tokensFrom (s : CString) (before : Option Nat) (delims : List CString) :
    Tokenizes s before delims (tokensFrom s.chars 0 (delims.map CString.isDelim)).1 := by
  have remains : Remains s.chars s.memory 0 := ⟨Nat.zero_le _, s.ends⟩
  refine ⟨s.chars.length + (delims.map fun delim => delim.chars.length).sum + 1, ?_⟩
  intro fuel enough
  cases delims with
  | nil => exact ⟨[], ⟨s.memory, before⟩, rfl, List.Forall₂.nil⟩
  | cons delim delims =>
      have all_short : ∀ later ∈ delim :: delims, s.chars.length + later.chars.length < fuel := by
        intro later member
        have bound := List.single_le_sum (fun _ _ => Nat.zero_le _) _
          (List.mem_map_of_mem (f := fun delim : CString => delim.chars.length) member)
        omega
      obtain ⟨pointers, after, calls, _, tokens⟩ :=
        strtokCalls_cuts remains (delim :: delims) all_short
      -- With `s` passed, the static pointer is set before it is looked at.
      exact ⟨pointers, _, calls, tokens⟩

/-- The calls give the tokens of the splitter and then `NULL` forever, and with one delimiter
string the maximal runs of other characters. -/
theorem strtok_splits (s : CString) (before : Option Nat) :
    (∀ delims,
      Tokenizes s before delims (tokensFrom s.chars 0 (delims.map CString.isDelim)).1 ∧
      (tokensFrom s.chars 0 (delims.map CString.isDelim)).1.Pairwise
        fun token later => token = none → later = none) ∧
    ∀ delim n, Tokenizes s before (List.replicate n delim)
      ((List.range n).map fun k => (runs delim.isDelim s.chars)[k]?) := by
  constructor
  · intro delims
    exact ⟨tokenizes_tokensFrom s before delims, tokensFrom_pairwise s.chars 0 _⟩
  · intro delim n
    have tokens := tokenizes_tokensFrom s before (List.replicate n delim)
    rw [List.map_replicate, tokensFrom_replicate, List.drop_zero] at tokens
    exact tokens

end ApnaOS.StringOps
