import ApnaOS.Keyboard.Handler

/-!
# A line editor

What the keyboard is for: keys put characters on a line, take the last one back or end the
line.  The handler keeps the line in a buffer and does the same.
-/

set_option autoImplicit false

namespace ApnaOS.Keyboard

open ApnaOS.Lib
open ApnaOS.StringOps (Byte Bytes)
open Function (update update_self update_of_ne)

inductive Key where
  | shift (pressed : Bool)
  | capsLock
  | enter
  | backspace
  | char (c : Byte)
  | nothing

def Key.ofCode (key : Byte) : Key :=
  if key = 0 then .nothing
  else if key = 10 then .enter
  else if key = 8 then .backspace
  else .char key

def decode (shift caps : Bool) (scancode : Byte) : Key :=
  if scancode = 0x2A ∨ scancode = 0x36 then .shift true
  else if scancode = 0xAA ∨ scancode = 0xB6 then .shift false
  else if scancode = 0x3A then .capsLock
  else if scancode &&& 0x80 = 0 then .ofCode (keyOf shift caps scancode)
  else .nothing

structure Editor where
  shift : Bool
  caps : Bool
  typed : List Byte

namespace Editor

def start : Editor := ⟨false, false, []⟩

def press (editor : Editor) : Key → Editor × Option (List Byte)
  | .shift pressed => ({ editor with shift := pressed }, none)
  | .capsLock => ({ editor with caps := !editor.caps }, none)
  | .enter => ({ editor with typed := [] }, some editor.typed)
  | .backspace => ({ editor with typed := editor.typed.dropLast }, none)
  | .char c =>
      (if editor.typed.length < 255 then { editor with typed := editor.typed ++ [c] } else editor,
        none)
  | .nothing => (editor, none)

def scan (editor : Editor) (scancode : Byte) : Editor × Option (List Byte) :=
  editor.press (decode editor.shift editor.caps scancode)

end Editor

/-! ## The buffers -/

structure HoldsLine (memory : Bytes) (line : List Byte) : Prop where
  fits : line.length < bufferSize
  bytes : line = (List.range line.length).map memory
  nonzero : ∀ c ∈ line, c ≠ 0
  terminated : memory line.length = 0

namespace HoldsLine

variable {memory : Bytes} {line : List Byte}

theorem apply (holds : HoldsLine memory line) {i : Nat} (before : i < line.length) :
    memory i ≠ 0 := by
  apply holds.nonzero _
  rw [holds.bytes]
  exact List.mem_map_of_mem (List.mem_range.mpr before)

theorem copyLine (holds : HoldsLine memory line) (dest : Bytes) {fuel i : Nat}
    (left : line.length ≤ i + fuel) (reached : i ≤ line.length) :
    ∃ copied, copyLine memory fuel i dest = (copied, line.length) ∧
      ∀ k, copied k = if i ≤ k ∧ k < line.length then memory k else dest k := by
  induction fuel generalizing i dest with
  | zero =>
      have last : i = line.length := by omega
      refine ⟨dest, by rw [last]; rfl, ?_⟩
      intro k
      rw [if_neg (by omega)]
  | succ fuel ih =>
      have fits := holds.fits
      rw [Keyboard.copyLine]
      by_cases more : i < line.length
      · have inside : memory i ≠ 0 ∧ i < bufferSize := ⟨holds.apply more, by omega⟩
        obtain ⟨copied, ran, bytes⟩ := ih (update dest i (memory i)) (by omega) more
        rw [if_pos inside]
        refine ⟨copied, ran, ?_⟩
        intro k
        rw [bytes]
        by_cases here : k = i
        · subst here
          rw [if_neg (by omega), if_pos ⟨Nat.le_refl k, more⟩, update_self]
        · rw [update_of_ne here]
          refine if_congr ?_ rfl rfl
          omega
      · have last : i = line.length := by omega
        have stop : ¬ (memory i ≠ 0 ∧ i < bufferSize) := by
          rw [last]
          exact fun inside => inside.1 holds.terminated
        rw [if_neg stop]
        refine ⟨dest, by rw [last], ?_⟩
        intro k
        rw [if_neg (by omega)]

theorem copied (holds : HoldsLine memory line) (dest : Bytes) : HoldsLine
    (update (Keyboard.copyLine memory bufferSize 0 dest).1
      (Keyboard.copyLine memory bufferSize 0 dest).2 0) line := by
  have left : line.length ≤ 0 + bufferSize := by
    have fits := holds.fits
    omega
  obtain ⟨copied, ran, bytes⟩ := holds.copyLine dest left (Nat.zero_le _)
  rw [ran]
  refine ⟨holds.fits, ?_, holds.nonzero, update_self ..⟩
  refine holds.bytes.trans (List.map_congr_left ?_)
  intro k member
  have before := List.mem_range.mp member
  rw [update_of_ne (Nat.ne_of_lt before)]
  exact ((bytes k).trans (if_pos ⟨Nat.zero_le k, before⟩)).symm

theorem readLoop (holds : HoldsLine memory line) (maxLength : Int) {fuel i : Nat}
    (left : line.length ≤ i + fuel) (reached : i ≤ line.length) :
    readLoop memory maxLength fuel i = (line.drop i).take ((maxLength - 1).toNat - i) := by
  induction fuel generalizing i with
  | zero =>
      rw [List.drop_of_length_le (by omega)]
      simp [Keyboard.readLoop]
  | succ fuel ih =>
      rw [Keyboard.readLoop]
      by_cases more : i < line.length
      · have head : (line)[i] = memory i := by
          have same := List.getElem_of_eq holds.bytes more
          rw [same, List.getElem_map, List.getElem_range]
        rw [List.drop_eq_getElem_cons more, head]
        by_cases room : (i : Int) < maxLength - 1
        · rw [if_pos ⟨holds.apply more, room⟩, ih (by omega) more,
            show (maxLength - 1).toNat - i = (maxLength - 1).toNat - (i + 1) + 1 by omega,
            List.take_succ_cons]
        · rw [if_neg fun both => room both.2, show (maxLength - 1).toNat - i = 0 by omega,
            List.take_zero]
      · have last : i = line.length := by omega
        rw [if_neg (fun both => both.1 (by rw [last]; exact holds.terminated)),
          List.drop_of_length_le (by omega), List.take_nil]

end HoldsLine

/-! ## The handler edits lines -/

/-- The keyboard holds the line the editor has. -/
structure Edits (keyboard : KeyboardState) (editor : Editor) : Prop where
  shift : keyboard.shiftPressed = editor.shift
  caps : keyboard.capsLockOn = editor.caps
  index : keyboard.bufferIndex = editor.typed.length
  fits : editor.typed.length < bufferSize
  bytes : editor.typed = (List.range editor.typed.length).map keyboard.inputBuffer
  nonzero : ∀ c ∈ editor.typed, c ≠ 0

theorem edits_boot : Edits bootKeyboard Editor.start :=
  ⟨rfl, rfl, rfl, by decide, rfl, by simp [Editor.start]⟩

namespace Edits

variable {keyboard : KeyboardState} {editor : Editor}

theorem holdsLine (edits : Edits keyboard editor) :
    HoldsLine (update keyboard.inputBuffer keyboard.bufferIndex 0) editor.typed := by
  rw [edits.index]
  refine ⟨edits.fits, edits.bytes.trans (List.map_congr_left ?_), edits.nonzero, update_self ..⟩
  intro k member
  rw [update_of_ne (Nat.ne_of_lt (List.mem_range.mp member))]

theorem append (edits : Edits keyboard editor) {c : Byte} (room : editor.typed.length < 255)
    (nonzero : c ≠ 0) : Edits { keyboard with
      inputBuffer := update keyboard.inputBuffer keyboard.bufferIndex c
      bufferIndex := keyboard.bufferIndex + 1 } { editor with typed := editor.typed ++ [c] } := by
  have longer : (editor.typed ++ [c]).length = editor.typed.length + 1 := List.length_append
  refine ⟨edits.shift, edits.caps, ?_, ?_, ?_, ?_⟩
  · rw [longer, edits.index]
  · rw [longer, bufferSize]
    omega
  · rw [longer, List.range_succ, List.map_append, edits.index]
    refine congrArg₂ _ (edits.bytes.trans (List.map_congr_left ?_)) ?_
    · intro k member
      exact (update_of_ne (Nat.ne_of_lt (List.mem_range.mp member)) ..).symm
    · exact congrArg (fun x => [x]) (update_self editor.typed.length c keyboard.inputBuffer).symm
  · intro x member
    rcases List.mem_append.mp member with old | new
    · exact edits.nonzero x old
    · rw [List.mem_singleton.mp new]
      exact nonzero

theorem dropLast (edits : Edits keyboard editor) : Edits
    { keyboard with bufferIndex := keyboard.bufferIndex - 1 }
    { editor with typed := editor.typed.dropLast } := by
  have shorter : editor.typed.dropLast.length = editor.typed.length - 1 := List.length_dropLast
  have fits := edits.fits
  refine ⟨edits.shift, edits.caps, ?_, ?_, ?_, ?_⟩
  · rw [shorter, edits.index]
  · rw [shorter]
    omega
  · rw [shorter]
    have cut : (List.range editor.typed.length).dropLast = List.range (editor.typed.length - 1) := by
      rw [List.dropLast_eq_take, List.length_range, List.take_range,
        Nat.min_eq_left (Nat.sub_le _ _)]
    have fewer := congrArg List.dropLast edits.bytes
    rw [← List.map_dropLast, cut] at fewer
    exact fewer
  · exact fun x member => edits.nonzero x (List.dropLast_subset _ member)

end Edits

/-- What the line buffer holds for `read_line`, if the flag is set. -/
structure Holds (keyboard : KeyboardState) (pending : Option (List Byte)) : Prop where
  ready : keyboard.inputReady = pending.isSome
  line : ∀ line, pending = some line → HoldsLine keyboard.inputLine line

theorem Edits.press {keyboard : KeyboardState} {editor : Editor} {pending : Option (List Byte)}
    (edits : Edits keyboard editor) (holds : Holds keyboard pending) (key : Byte) :
    Edits (if key ≠ 0 then keyboard.pressKey key else (keyboard, [])).1
        (editor.press (.ofCode key)).1 ∧
      Holds (if key ≠ 0 then keyboard.pressKey key else (keyboard, [])).1
        ((editor.press (.ofCode key)).2.or pending) := by
  rw [Key.ofCode, KeyboardState.pressKey]
  by_cases nothing : key = 0
  · simp only [nothing, ne_eq, not_true_eq_false, if_false, if_true]
    exact ⟨edits, holds⟩
  rw [if_pos nothing, if_neg nothing]
  by_cases enter : key = 10
  · rw [if_pos enter, if_pos enter]
    refine ⟨⟨edits.shift, edits.caps, rfl, Nat.zero_lt_succ 255, rfl, by simp [Editor.press]⟩, rfl, ?_⟩
    intro line same
    rw [← Option.some.inj same]
    exact edits.holdsLine.copied keyboard.inputLine
  rw [if_neg enter, if_neg enter]
  by_cases backspace : key = 8
  · rw [if_pos backspace, if_pos backspace]
    split
    · exact ⟨edits.dropLast, holds.ready, holds.line⟩
    · rename_i empty
      have untyped : editor.typed = [] := List.length_eq_zero_iff.mp (by
        rw [← edits.index]
        omega)
      have dropped : editor.typed.dropLast = editor.typed := by rw [untyped, List.dropLast_nil]
      refine ⟨?_, holds⟩
      simp only [Editor.press, dropped]
      exact edits
  rw [if_neg backspace, if_neg backspace]
  have same : keyboard.bufferIndex < bufferSize - 1 ↔ editor.typed.length < 255 := by
    rw [edits.index]
    exact Iff.rfl
  by_cases room : editor.typed.length < 255
  · rw [if_pos (same.mpr room)]
    refine ⟨?_, holds.ready, holds.line⟩
    simp only [Editor.press, room, if_true]
    exact edits.append room nothing
  · rw [if_neg (fun before => room (same.mp before))]
    refine ⟨?_, holds⟩
    simp only [Editor.press, room, if_false]
    exact edits

/-- The handler does what the editor does, and a line that is completed replaces the one
in the line buffer. -/
theorem keyboardHandler_edits {keyboard : KeyboardState} {editor : Editor}
    {pending : Option (List Byte)} (edits : Edits keyboard editor) (holds : Holds keyboard pending)
    (scancode : Byte) : Edits (keyboardHandler keyboard scancode).1 (editor.scan scancode).1 ∧
      Holds (keyboardHandler keyboard scancode).1 ((editor.scan scancode).2.or pending) := by
  rw [keyboardHandler, Editor.scan, decode]
  split
  · exact ⟨⟨rfl, edits.caps, edits.index, edits.fits, edits.bytes, edits.nonzero⟩, holds.ready, holds.line⟩
  · split
    · exact ⟨⟨rfl, edits.caps, edits.index, edits.fits, edits.bytes, edits.nonzero⟩, holds.ready, holds.line⟩
    · split
      · exact ⟨⟨edits.shift, congrArg (! ·) edits.caps, edits.index, edits.fits, edits.bytes,
          edits.nonzero⟩, holds.ready, holds.line⟩
      · split
        · rw [edits.shift, edits.caps]
          exact edits.press holds _
        · exact ⟨edits, holds⟩

end ApnaOS.Keyboard
