import ApnaOS.Keyboard.LineEditor
import ApnaOS.Lib.Writes
import Mathlib.Data.List.Induction

/-!
# Lines out of scancodes

After Enter `input_line` holds the characters pressed since the Enter before, with backspaces
applied and what came after 255 characters dropped.  The stores into the two buffers are
recorded beside the handler.
-/

set_option autoImplicit false

namespace ApnaOS.Keyboard

open ApnaOS.Lib
open ApnaOS.StringOps (Byte Bytes)
open Function (update update_eq_self)

/-! ## Stores -/

/-- The stores of the copying loop into `input_line`. -/
def copyLineWrites (inputBuffer : Bytes) : (fuel i : Nat) → Writes Byte
  | 0, _ => []
  | fuel + 1, i =>
      if inputBuffer i ≠ 0 ∧ i < bufferSize then
        (i, inputBuffer i) :: copyLineWrites inputBuffer fuel (i + 1)
      else []

/-- The stores of one run of the handler into `input_buffer` and `input_line`. -/
structure HandlerWrites where
  inputBuffer : Writes Byte
  inputLine : Writes Byte

namespace KeyboardState

def enterWrites (keyboard : KeyboardState) : HandlerWrites :=
  let inputBuffer := update keyboard.inputBuffer keyboard.bufferIndex 0
  { inputBuffer := [(keyboard.bufferIndex, 0)]
    inputLine := copyLineWrites inputBuffer bufferSize 0 ++
      [((copyLine inputBuffer bufferSize 0 keyboard.inputLine).2, 0)] }

def pressWrites (keyboard : KeyboardState) (key : Byte) : HandlerWrites :=
  if key = 10 then keyboard.enterWrites
  else if key = 8 then ⟨[], []⟩
  else if keyboard.bufferIndex < bufferSize - 1 then ⟨[(keyboard.bufferIndex, key)], []⟩
  else ⟨[], []⟩

end KeyboardState

def handlerWrites (keyboard : KeyboardState) (scancode : Byte) : HandlerWrites :=
  if scancode = 0x2A ∨ scancode = 0x36 then ⟨[], []⟩
  else if scancode = 0xAA ∨ scancode = 0xB6 then ⟨[], []⟩
  else if scancode = 0x3A then ⟨[], []⟩
  else if scancode &&& 0x80 = 0 then
    let key := keyOf keyboard.shiftPressed keyboard.capsLockOn scancode
    if key ≠ 0 then keyboard.pressWrites key else ⟨[], []⟩
  else ⟨[], []⟩

theorem copyLineWrites_value (inputBuffer : Bytes) (fuel i : Nat) (inputLine : Bytes) :
    Writes.apply inputLine (copyLineWrites inputBuffer fuel i) =
      (copyLine inputBuffer fuel i inputLine).1 := by
  induction fuel generalizing i inputLine with
  | zero => rfl
  | succ fuel ih =>
      rw [copyLineWrites, copyLine]
      by_cases more : inputBuffer i ≠ 0 ∧ i < bufferSize
      · rw [if_pos more, if_pos more]
        exact ih (i + 1) (update inputLine i (inputBuffer i))
      · rw [if_neg more, if_neg more]
        rfl

structure Leaves (keyboard after : KeyboardState) (writes : HandlerWrites) : Prop where
  inputBuffer : Writes.apply keyboard.inputBuffer writes.inputBuffer = after.inputBuffer
  inputLine : Writes.apply keyboard.inputLine writes.inputLine = after.inputLine

theorem enterWrites_value (keyboard : KeyboardState) :
    Leaves keyboard keyboard.enterLine keyboard.enterWrites where
  inputBuffer := rfl
  inputLine := by
    simp only [KeyboardState.enterWrites, Writes.apply_append, copyLineWrites_value]
    rfl

theorem pressWrites_value (keyboard : KeyboardState) (key : Byte) :
    Leaves keyboard (keyboard.pressKey key).1 (keyboard.pressWrites key) := by
  rw [KeyboardState.pressKey, KeyboardState.pressWrites]
  by_cases enter : key = 10
  · rw [if_pos enter, if_pos enter]
    exact enterWrites_value keyboard
  rw [if_neg enter, if_neg enter]
  by_cases backspace : key = 8
  · rw [if_pos backspace, if_pos backspace]
    split <;> exact ⟨rfl, rfl⟩
  rw [if_neg backspace, if_neg backspace]
  split <;> exact ⟨rfl, rfl⟩

theorem handlerWrites_value (keyboard : KeyboardState) (scancode : Byte) :
    Leaves keyboard (keyboardHandler keyboard scancode).1 (handlerWrites keyboard scancode) := by
  rw [keyboardHandler, handlerWrites]
  split
  · exact ⟨rfl, rfl⟩
  split
  · exact ⟨rfl, rfl⟩
  split
  · exact ⟨rfl, rfl⟩
  split
  · dsimp only
    split
    · exact pressWrites_value keyboard _
    · exact ⟨rfl, rfl⟩
  · exact ⟨rfl, rfl⟩

/-! ## Their range -/

structure HandlerWrites.InRange (writes : HandlerWrites) : Prop where
  inputBuffer : Writes.Within bufferSize writes.inputBuffer
  inputLine : Writes.Within bufferSize writes.inputLine

theorem HandlerWrites.inRange_nothing : InRange ⟨[], []⟩ :=
  ⟨Writes.Within.nil _, Writes.Within.nil _⟩

theorem copyLineWrites_within (inputBuffer : Bytes) (fuel i : Nat) :
    Writes.Within bufferSize (copyLineWrites inputBuffer fuel i) := by
  induction fuel generalizing i with
  | zero => exact Writes.Within.nil bufferSize
  | succ fuel ih =>
      rw [copyLineWrites]
      split
      · rename_i more
        exact Writes.within_cons.mpr ⟨more.2, ih (i + 1)⟩
      · exact Writes.Within.nil bufferSize

theorem Edits.enterWrites_inRange {keyboard : KeyboardState} {editor : Editor}
    (edits : Edits keyboard editor) : keyboard.enterWrites.InRange := by
  have fits := edits.fits
  have left : editor.typed.length ≤ 0 + bufferSize := by omega
  obtain ⟨copied, ran, _⟩ := edits.holdsLine.copyLine keyboard.inputLine left (Nat.zero_le _)
  constructor
  · apply Writes.within_cons.mpr
    rw [edits.index]
    exact ⟨fits, Writes.Within.nil bufferSize⟩
  · apply Writes.within_append.mpr
    constructor
    · exact copyLineWrites_within _ bufferSize 0
    · rw [ran]
      exact Writes.within_cons.mpr ⟨fits, Writes.Within.nil bufferSize⟩

theorem Edits.pressWrites_inRange {keyboard : KeyboardState} {editor : Editor}
    (edits : Edits keyboard editor) (key : Byte) : (keyboard.pressWrites key).InRange := by
  rw [KeyboardState.pressWrites]
  split
  · exact edits.enterWrites_inRange
  split
  · exact HandlerWrites.inRange_nothing
  split
  · rename_i room
    constructor
    · apply Writes.within_cons.mpr
      exact ⟨by omega, Writes.Within.nil bufferSize⟩
    · exact Writes.Within.nil bufferSize
  · exact HandlerWrites.inRange_nothing

theorem Edits.handlerWrites_inRange {keyboard : KeyboardState} {editor : Editor}
    (edits : Edits keyboard editor) (scancode : Byte) :
    (handlerWrites keyboard scancode).InRange := by
  rw [handlerWrites]
  split
  · exact HandlerWrites.inRange_nothing
  split
  · exact HandlerWrites.inRange_nothing
  split
  · exact HandlerWrites.inRange_nothing
  split
  · dsimp only
    split
    · exact edits.pressWrites_inRange _
    · exact HandlerWrites.inRange_nothing
  · exact HandlerWrites.inRange_nothing

/-! ## The characters of a history -/

def handleAll (keyboard : KeyboardState) (scancodes : List Byte) : KeyboardState :=
  scancodes.foldl (fun keyboard scancode => (keyboardHandler keyboard scancode).1) keyboard

def Key.character : Key → Option Byte
  | .enter => some 10
  | .backspace => some 8
  | .char c => some c
  | .shift _ | .capsLock | .nothing => none

def Key.shiftAfter (shift : Bool) : Key → Bool
  | .shift pressed => pressed
  | _ => shift

def Key.capsAfter (caps : Bool) : Key → Bool
  | .capsLock => !caps
  | _ => caps

/-- What the tables and the case rule give for the presses, by the two flags at the start. -/
def characters (shift caps : Bool) : List Byte → List Byte
  | [] => []
  | scancode :: rest =>
      let key := decode shift caps scancode
      key.character.toList ++ characters (key.shiftAfter shift) (key.capsAfter caps) rest

/-- A character is kept on the line; 8 takes the last one back, and 255 are enough. -/
def keep (kept : List Byte) (c : Byte) : List Byte :=
  if c = 8 then kept.dropLast
  else if kept.length < 255 then kept ++ [c]
  else kept

def sinceEnter (typed : List Byte) : List Byte :=
  (typed.reverse.takeWhile fun c => decide (c ≠ 10)).reverse

/-- `keep`, and a new line after 10. -/
def keepOrEnter (kept : List Byte) (c : Byte) : List Byte :=
  if c = 10 then [] else keep kept c

theorem foldl_keepOrEnter (typed : List Byte) :
    typed.foldl keepOrEnter [] = (sinceEnter typed).foldl keep [] := by
  induction typed using List.reverseRecOn with
  | nil => rfl
  | append_singleton typed c ih =>
      rw [List.foldl_append, ih]
      by_cases enter : c = 10
      · simp [sinceEnter, keepOrEnter, enter]
      · simp [sinceEnter, keepOrEnter, enter]

theorem keyOf_ofCode_char {key c : Byte} (char : Key.ofCode key = .char c) :
    c = key ∧ key ≠ 10 ∧ key ≠ 8 := by
  rw [Key.ofCode] at char
  split at char
  · cases char
  split at char
  · cases char
  split at char
  · cases char
  · rename_i enter backspace
    cases char
    exact ⟨rfl, enter, backspace⟩

theorem decode_char {shift caps : Bool} {scancode c : Byte}
    (char : decode shift caps scancode = .char c) : c ≠ 10 ∧ c ≠ 8 := by
  rw [decode] at char
  split at char
  · cases char
  split at char
  · cases char
  split at char
  · cases char
  split at char
  · obtain ⟨same, others⟩ := keyOf_ofCode_char char
    rw [same]
    exact others
  · cases char

theorem scan_typed (editor : Editor) (scancode : Byte) :
    (editor.scan scancode).1.typed =
      (decode editor.shift editor.caps scancode).character.toList.foldl keepOrEnter editor.typed := by
  rw [Editor.scan]
  cases key : decode editor.shift editor.caps scancode with
  | shift pressed => rfl
  | capsLock => rfl
  | enter => rfl
  | backspace => rfl
  | char c =>
      obtain ⟨noEnter, noBackspace⟩ := decode_char key
      simp only [Editor.press, Key.character, Option.toList_some, List.foldl_cons, List.foldl_nil,
        keepOrEnter, keep, if_neg noEnter, if_neg noBackspace]
      split <;> rfl
  | nothing => rfl

theorem scan_shift (editor : Editor) (scancode : Byte) : (editor.scan scancode).1.shift =
    (decode editor.shift editor.caps scancode).shiftAfter editor.shift := by
  rw [Editor.scan]
  cases decode editor.shift editor.caps scancode with
  | char c =>
      simp only [Editor.press, Key.shiftAfter]
      split <;> rfl
  | _ => rfl

theorem scan_caps (editor : Editor) (scancode : Byte) : (editor.scan scancode).1.caps =
    (decode editor.shift editor.caps scancode).capsAfter editor.caps := by
  rw [Editor.scan]
  cases decode editor.shift editor.caps scancode with
  | char c =>
      simp only [Editor.press, Key.capsAfter]
      split <;> rfl
  | _ => rfl

def Editor.scanAll (editor : Editor) (scancodes : List Byte) : Editor :=
  scancodes.foldl (fun editor scancode => (editor.scan scancode).1) editor

theorem scanAll_typed (editor : Editor) (scancodes : List Byte) :
    (editor.scanAll scancodes).typed =
      (characters editor.shift editor.caps scancodes).foldl keepOrEnter editor.typed := by
  induction scancodes generalizing editor with
  | nil => rfl
  | cons scancode rest ih =>
      have later := ih (editor.scan scancode).1
      rw [scan_typed, scan_shift, scan_caps] at later
      rw [characters, List.foldl_append]
      exact later

theorem handleAll_edits {keyboard : KeyboardState} {editor : Editor}
    {pending : Option (List Byte)} (edits : Edits keyboard editor) (holds : Holds keyboard pending)
    (scancodes : List Byte) : ∃ pending',
      Edits (handleAll keyboard scancodes) (editor.scanAll scancodes) ∧
        Holds (handleAll keyboard scancodes) pending' := by
  induction scancodes generalizing keyboard editor pending with
  | nil => exact ⟨pending, edits, holds⟩
  | cons scancode rest ih =>
      obtain ⟨edits', holds'⟩ := keyboardHandler_edits edits holds scancode
      exact ih edits' holds'

theorem characters_append (editor : Editor) (scancodes : List Byte) (scancode : Byte) :
    characters editor.shift editor.caps (scancodes ++ [scancode]) =
      characters editor.shift editor.caps scancodes ++
        (decode (editor.scanAll scancodes).shift (editor.scanAll scancodes).caps
          scancode).character.toList := by
  induction scancodes generalizing editor with
  | nil => simp [characters, Editor.scanAll]
  | cons first rest ih =>
      have later := ih (editor.scan first).1
      rw [scan_shift, scan_caps] at later
      rw [List.cons_append, characters, characters, List.append_assoc]
      exact congrArg _ later

theorem decode_enter {shift caps : Bool} {scancode : Byte}
    (ten : (decode shift caps scancode).character.toList = [10]) :
    decode shift caps scancode = .enter := by
  cases key : decode shift caps scancode with
  | enter => rfl
  | char c =>
      have same : c = 10 := by simpa [key, Key.character] using ten
      exact absurd same (decode_char key).1
  | backspace => simp [key, Key.character] at ten
  | shift _ | capsLock | nothing => simp [key, Key.character] at ten

/-! ## The line -/

/-- What the handler promises after a history, and for the next scancode. -/
structure LineEditing (scancodes : List Byte) : Prop where
  index : (handleAll bootKeyboard scancodes).bufferIndex ≤ 255
  inRange : ∀ scancode, (handlerWrites (handleAll bootKeyboard scancodes) scancode).InRange
  line : ∀ scancode, characters false false (scancodes ++ [scancode]) =
      characters false false scancodes ++ [10] →
    HoldsLine (handleAll bootKeyboard (scancodes ++ [scancode])).inputLine
      ((sinceEnter (characters false false scancodes)).foldl keep [])

/-- The line editor, after every sequence of scancodes. -/
theorem line_editing (scancodes : List Byte) : LineEditing scancodes := by
  have empty : Holds bootKeyboard none := ⟨rfl, fun _ clash => by cases clash⟩
  obtain ⟨pending, edits, holds⟩ := handleAll_edits edits_boot empty scancodes
  constructor
  · have fits := edits.fits
    rw [edits.index]
    unfold bufferSize at fits
    omega
  · exact fun scancode => edits.handlerWrites_inRange scancode
  · intro scancode entered
    have start : characters false false = characters Editor.start.shift Editor.start.caps := rfl
    rw [start, characters_append] at entered
    have enter := decode_enter (List.append_cancel_left entered)
    have typed := scanAll_typed Editor.start scancodes
    obtain ⟨_, holds'⟩ := keyboardHandler_edits edits holds scancode
    have completed : ((Editor.start.scanAll scancodes).scan scancode).2 =
        some (Editor.start.scanAll scancodes).typed := by
      rw [Editor.scan, enter]
      rfl
    rw [completed, Option.some_or, typed] at holds'
    rw [handleAll, List.foldl_append, ← foldl_keepOrEnter]
    exact holds'.line _ rfl

end ApnaOS.Keyboard
