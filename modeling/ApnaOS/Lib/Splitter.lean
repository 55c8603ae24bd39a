import Mathlib.Data.List.Basic
import Mathlib.Data.List.TakeWhile

/-!
# Splitting a text at delimiters

A splitter keeps a position in the text.  Each call has delimiters of its own: it skips them
and takes the items up to the next one.
-/

set_option autoImplicit false

namespace ApnaOS.Lib

universe u

variable {α : Type u}

/-- The end of the items with `p` from a position on. -/
def spanEnd (text : List α) (position : Nat) (p : α → Bool) : Nat :=
  position + ((text.drop position).takeWhile p).length

/-- The next token, or `none` if the text is exhausted, and the position behind it: behind the
one delimiter that ended the token, or at the end of the text. -/
def nextToken (text : List α) (position : Nat) (isDelim : α → Bool) : Option (List α) × Nat :=
  let start := spanEnd text position isDelim
  let stop := spanEnd text start fun c => !isDelim c
  if start < text.length then
    (some ((text.drop start).takeWhile fun c => !isDelim c),
      if stop < text.length then stop + 1 else stop)
  else (none, start)

/-- The tokens of a sequence of calls, each with its delimiters, and the position at the end. -/
def tokensFrom (text : List α) : Nat → List (α → Bool) → List (Option (List α)) × Nat
  | position, [] => ([], position)
  | position, isDelim :: later =>
      let next := nextToken text position isDelim
      let rest := tokensFrom text next.2 later
      (next.1 :: rest.1, rest.2)

/-- The maximal runs of items that are no delimiters. -/
def runs (isDelim : α → Bool) (text : List α) : List (List α) :=
  (text.splitOnP isDelim).filter fun run => !run.isEmpty

section Spans

variable {text : List α} {position : Nat} {p : α → Bool}

theorem le_spanEnd : position ≤ spanEnd text position p := Nat.le_add_right _ _

theorem spanEnd_le (inside : position ≤ text.length) : spanEnd text position p ≤ text.length := by
  have bound := (List.takeWhile_sublist p (l := text.drop position)).length_le
  rw [List.length_drop] at bound
  rw [spanEnd]
  omega

theorem drop_spanEnd : text.drop (spanEnd text position p) = (text.drop position).dropWhile p := by
  have parts : (text.drop position).takeWhile p ++ (text.drop position).dropWhile p =
      text.drop position := List.takeWhile_append_dropWhile
  rw [spanEnd, ← List.drop_drop]
  calc
    _ = ((text.drop position).takeWhile p ++ (text.drop position).dropWhile p).drop
          ((text.drop position).takeWhile p).length := by rw [parts]
    _ = (text.drop position).dropWhile p := List.drop_left

end Spans

/-! ## One call -/

section Call

variable {text : List α} {position : Nat} {isDelim : α → Bool}

theorem nextToken_of_lt (more : spanEnd text position isDelim < text.length) :
    (nextToken text position isDelim).1 =
      some (((text.drop position).dropWhile isDelim).takeWhile fun c => !isDelim c) := by
  rw [nextToken, if_pos more, drop_spanEnd]

theorem drop_nextToken_of_lt (more : spanEnd text position isDelim < text.length) :
    text.drop (nextToken text position isDelim).2 =
      (((text.drop position).dropWhile isDelim).dropWhile fun c => !isDelim c).tail := by
  rw [nextToken, if_pos more, ← drop_spanEnd, ← drop_spanEnd, List.tail_drop]
  by_cases ended : spanEnd text (spanEnd text position isDelim) (fun c => !isDelim c) < text.length
  · rw [if_pos ended]
  · rw [if_neg ended, List.drop_eq_nil_of_le (by omega), List.drop_eq_nil_of_le (by omega)]

theorem nextToken_of_exhausted (exhausted : ¬ spanEnd text position isDelim < text.length) :
    nextToken text position isDelim = (none, spanEnd text position isDelim) := if_neg exhausted

theorem le_nextToken : position ≤ (nextToken text position isDelim).2 := by
  have start := @le_spanEnd _ text position isDelim
  by_cases more : spanEnd text position isDelim < text.length
  · have stop : position ≤ spanEnd text (spanEnd text position isDelim) fun c => !isDelim c :=
      start.trans le_spanEnd
    rw [nextToken, if_pos more]
    split
    · exact Nat.le_succ_of_le stop
    · exact stop
  · rw [nextToken_of_exhausted more]
    exact start

end Call

/-! ## The end of the text -/

theorem tokensFrom_exhausted {text : List α} {position : Nat} (exhausted : text.length ≤ position)
    (delims : List (α → Bool)) : ∀ token ∈ (tokensFrom text position delims).1, token = none := by
  induction delims generalizing position with
  | nil => exact fun token member => absurd member List.not_mem_nil
  | cons isDelim delims ih =>
      have stays : spanEnd text position isDelim = position := by
        rw [spanEnd, List.drop_eq_nil_of_le exhausted]
        rfl
      rw [tokensFrom, nextToken_of_exhausted (by omega), stays]
      intro token member
      rcases List.mem_cons.mp member with here | later
      · exact here
      · exact ih exhausted token later

theorem tokensFrom_pairwise (text : List α) (position : Nat) (delims : List (α → Bool)) :
    (tokensFrom text position delims).1.Pairwise
      fun token later => token = none → later = none := by
  induction delims generalizing position with
  | nil => exact List.Pairwise.nil
  | cons isDelim delims ih =>
      rw [tokensFrom]
      refine List.Pairwise.cons ?_ (ih _)
      intro later member ended
      have exhausted : ¬ spanEnd text position isDelim < text.length := by
        intro more
        rw [nextToken_of_lt more] at ended
        cases ended
      rw [nextToken_of_exhausted exhausted] at member
      exact tokensFrom_exhausted (not_lt.mp exhausted) delims later member

/-! ## One delimiter set -/

section Runs

variable {isDelim : α → Bool}

theorem runs_cons {c : α} (delimits : isDelim c = true) (text : List α) :
    runs isDelim (c :: text) = runs isDelim text := by
  rw [runs, List.splitOnP_cons_eq_if_modifyHead, if_pos delimits]
  rfl

theorem runs_dropWhile (text : List α) :
    runs isDelim (text.dropWhile isDelim) = runs isDelim text := by
  induction text with
  | nil => rfl
  | cons c rest ih =>
      cases delimits : isDelim c with
      | true => rw [List.dropWhile_cons_of_pos delimits, ih, runs_cons delimits]
      | false => rw [List.dropWhile_cons_of_neg (by rw [delimits]; exact Bool.false_ne_true)]

theorem runs_append {token after : List α} (nonempty : token ≠ [])
    (items : ∀ c ∈ token, isDelim c = false) (ended : ∀ d ∈ after.head?, isDelim d = true) :
    runs isDelim (token ++ after) = token :: runs isDelim after.tail := by
  have kept : (fun run : List α => !run.isEmpty) token = true := by
    rw [Bool.not_eq_true', List.isEmpty_eq_false_iff]
    exact nonempty
  cases after with
  | nil =>
      rw [List.append_nil, runs, List.splitOnP_eq_singleton items,
        List.filter_cons_of_pos (p := fun run : List α => !run.isEmpty) kept]
      rfl
  | cons d rest =>
      rw [runs, List.splitOnP_append_cons_of_forall_mem items d (ended d rfl),
        List.filter_cons_of_pos (p := fun run : List α => !run.isEmpty) kept]
      rfl

theorem runs_of_head {items : List α} (nonempty : items ≠ [])
    (first : isDelim (items.head nonempty) = false) :
    runs isDelim items = (items.takeWhile fun c => !isDelim c) ::
      runs isDelim (items.dropWhile fun c => !isDelim c).tail := by
  conv_lhs => rw [← List.takeWhile_append_dropWhile (p := fun c => !isDelim c) (l := items)]
  apply runs_append
  · cases items with
    | nil => exact absurd rfl nonempty
    | cons c rest =>
        have item : (fun c => !isDelim c) c = true := (Bool.not_eq_true' _).mpr first
        rw [List.takeWhile_cons_of_pos (p := fun c => !isDelim c) item]
        exact List.cons_ne_nil _ _
  · intro c member
    exact (Bool.not_eq_true' _).mp (List.mem_takeWhile_imp (p := fun c => !isDelim c) member)
  · intro d here
    have ended := List.head?_dropWhile_not (fun c => !isDelim c) items
    rw [here] at ended
    exact (Bool.not_eq_false' _).mp ended

theorem tail_runs (text : List α) : (runs isDelim text).tail =
    runs isDelim ((text.dropWhile isDelim).dropWhile fun c => !isDelim c).tail := by
  rw [← runs_dropWhile]
  by_cases nothing : text.dropWhile isDelim = []
  · rw [nothing]
    rfl
  · rw [runs_of_head nothing (List.head_dropWhile_not isDelim nothing)]
    rfl

theorem runs_drop (text : List α) (position : Nat) :
    runs isDelim (text.drop position) = (nextToken text position isDelim).1.toList ++
      runs isDelim (text.drop (nextToken text position isDelim).2) := by
  rw [← runs_dropWhile (text.drop position)]
  by_cases more : spanEnd text position isDelim < text.length
  · have nonempty : (text.drop position).dropWhile isDelim ≠ [] := by
      rw [← drop_spanEnd, ne_eq, List.drop_eq_nil_iff]
      omega
    rw [nextToken_of_lt more, drop_nextToken_of_lt more,
      runs_of_head nonempty (List.head_dropWhile_not isDelim nonempty)]
    rfl
  · rw [nextToken_of_exhausted more, drop_spanEnd]
    rfl

/-- With one delimiter set the calls give the runs in order, and `none` from then on. -/
theorem tokensFrom_replicate (text : List α) (position n : Nat) :
    (tokensFrom text position (List.replicate n isDelim)).1 =
      (List.range n).map fun k => (runs isDelim (text.drop position))[k]? := by
  induction n generalizing position with
  | zero => rfl
  | succ n ih =>
      rw [List.replicate_succ, tokensFrom, ih, List.range_succ_eq_map, List.map_cons, List.map_map,
        runs_drop text position]
      by_cases more : spanEnd text position isDelim < text.length
      · rw [nextToken_of_lt more]
        rfl
      · -- The position stays at the end.
        have rest : text.drop (spanEnd text position isDelim) = [] :=
          List.drop_eq_nil_of_le (by omega)
        rw [nextToken_of_exhausted more, rest]
        rfl

theorem runs_gap {gap : List α} (delims : ∀ c ∈ gap, isDelim c = true) (text : List α) :
    runs isDelim (gap ++ text) = runs isDelim text := by
  induction gap with
  | nil => rfl
  | cons c gap ih =>
      rw [List.cons_append, runs_cons (delims c List.mem_cons_self)]
      exact ih fun d member => delims d (List.mem_cons_of_mem c member)

end Runs

/-! ## Layouts -/

/-- The runs in order, with delimiters in front of, between and behind them. -/
inductive Separated (isDelim : α → Bool) : List (List α) → List α → Prop where
  | nil {gap : List α} (delims : ∀ c ∈ gap, isDelim c = true) : Separated isDelim [] gap
  | cons {gap run text : List α} {more : List (List α)} (delims : ∀ c ∈ gap, isDelim c = true)
      (nonempty : run ≠ []) (items : ∀ c ∈ run, isDelim c = false)
      (ended : ∀ c ∈ text.head?, isDelim c = true) (tail : Separated isDelim more text) :
      Separated isDelim (run :: more) (gap ++ run ++ text)

/-- The runs in front of a text, the last one ended by one delimiter. -/
inductive Opens (isDelim : α → Bool) (rest : List α) : List (List α) → List α → Prop where
  | nil : Opens isDelim rest [] rest
  | cons {gap run text : List α} {d : α} {more : List (List α)}
      (delims : ∀ c ∈ gap, isDelim c = true) (nonempty : run ≠ [])
      (items : ∀ c ∈ run, isDelim c = false) (ended : isDelim d = true)
      (tail : Opens isDelim rest more text) :
      Opens isDelim rest (run :: more) (gap ++ run ++ d :: text)

section Layouts

variable {isDelim : α → Bool}

theorem Separated.runs {more : List (List α)} {text : List α}
    (separated : Separated isDelim more text) : runs isDelim text = more := by
  induction separated with
  | @nil gap delims =>
      rw [← List.append_nil gap, runs_gap delims]
      rfl
  | @cons gap run text more delims nonempty items ended tail ih =>
      have behind : Lib.runs isDelim text.tail = Lib.runs isDelim text := by
        cases text with
        | nil => rfl
        | cons c rest => exact (runs_cons (ended c rfl) rest).symm
      rw [List.append_assoc, runs_gap delims, runs_append nonempty items ended, behind, ih]

theorem behind_run {gap run text : List α} {d : α} (delims : ∀ c ∈ gap, isDelim c = true)
    (nonempty : run ≠ []) (items : ∀ c ∈ run, isDelim c = false) (ended : isDelim d = true) :
    (((gap ++ run ++ d :: text).dropWhile isDelim).dropWhile fun c => !isDelim c).tail = text := by
  have first : (run ++ d :: text).dropWhile isDelim = run ++ d :: text := by
    cases run with
    | nil => exact absurd rfl nonempty
    | cons c rest =>
        apply List.dropWhile_cons_of_neg
        rw [items c List.mem_cons_self]
        exact Bool.false_ne_true
  have last : (d :: text).dropWhile (fun c => !isDelim c) = d :: text := by
    apply List.dropWhile_cons_of_neg
    rw [ended]
    exact Bool.false_ne_true
  have item : ∀ c ∈ run, (!isDelim c) = true := fun c member => by rw [items c member]; rfl
  rw [List.append_assoc, List.dropWhile_append_of_pos delims, first,
    List.dropWhile_append_of_pos item, last, List.tail_cons]

end Layouts

end ApnaOS.Lib
