import ApnaOS.Keyboard.Modifiers
import ApnaOS.Screen.Console

/-!
# The echo of the line editor

`keyboard_handler` prints each character it keeps, and backspace, space, backspace for one it
takes back.  `putchar` knows no backspace and draws those three as well.
-/

set_option autoImplicit false

namespace ApnaOS.Screen

open ApnaOS.Keyboard
open ApnaOS.StringOps (Byte Bytes)
open Function (update update_self update_of_ne)

/-- The keyboard and the screen after the handler has run for each scancode. -/
def echoAll (keyboard : KeyboardState) (screen : Vga) : List Byte → KeyboardState × Vga
  | [] => (keyboard, screen)
  | scancode :: rest =>
      let (keyboard, echo) := keyboardHandler keyboard scancode
      echoAll keyboard (screen.printToScreen echo) rest

def echoed (keyboard : KeyboardState) : List Byte → List Byte
  | [] => []
  | scancode :: rest =>
      (keyboardHandler keyboard scancode).2 ++ echoed (keyboardHandler keyboard scancode).1 rest

theorem echoAll_eq (keyboard : KeyboardState) (screen : Vga) (scancodes : List Byte) :
    echoAll keyboard screen scancodes =
      (handleAll keyboard scancodes, screen.printToScreen (echoed keyboard scancodes)) := by
  induction scancodes generalizing keyboard screen with
  | nil => rfl
  | cons scancode rest ih =>
      rw [echoAll, echoed, Vga.print_append]
      exact ih _ _

/-- The characters of a row from a column up to the cursor. -/
def shown (screen : Vga) (row start : Nat) : List Byte :=
  (List.range (screen.vgaCol - start)).map fun k => (screen.cell row (start + k)).1

/-- `input_buffer[0..buffer_index)`. -/
def buffered (keyboard : KeyboardState) : List Byte :=
  (List.range keyboard.bufferIndex).map keyboard.inputBuffer

/-! ## Printing within a row -/

theorem print_in_row {screen : Vga} {message : List Byte} (row : screen.vgaRow < vgaHeight)
    (noNewline : 10 ∉ message) (inRow : screen.vgaCol + message.length < vgaWidth) :
    (screen.printToScreen message).vgaCol = screen.vgaCol + message.length ∧
      (List.range message.length).map (fun k =>
        ((screen.printToScreen message).cell screen.vgaRow (screen.vgaCol + k)).1) = message ∧
      ∀ col, col < screen.vgaCol →
        (screen.printToScreen message).cell screen.vgaRow col = screen.cell screen.vgaRow col := by
  induction message generalizing screen with
  | nil => exact ⟨rfl, rfl, fun _ _ => rfl⟩
  | cons c rest ih =>
      rw [List.length_cons] at inRow
      have char : c ≠ 10 := fun newline => noNewline (newline ▸ List.mem_cons_self)
      have later : 10 ∉ rest := fun member => noNewline (List.mem_cons_of_mem c member)
      have first := Vga.putchar_inside char row (by omega)
      have start : (screen.putchar c).vgaRow = screen.vgaRow := by rw [first]; rfl
      have next : (screen.putchar c).vgaCol = screen.vgaCol + 1 := by rw [first]
      have drawn : ∀ col, col < vgaWidth → (screen.putchar c).cell screen.vgaRow col =
          if col = screen.vgaCol then (c, 0x07) else screen.cell screen.vgaRow col := by
        intro col inside
        rw [first]
        apply (Vga.cell_setCell screen (c, 0x07) (by omega) inside).trans
        refine if_congr ?_ rfl rfl
        exact and_iff_right rfl
      obtain ⟨cursor, cells, frame⟩ := @ih (screen.putchar c) (by rw [start]; exact row) later
        (by rw [next]; omega)
      rw [start, next] at cells frame
      rw [next] at cursor
      have whole : screen.printToScreen (c :: rest) = (screen.putchar c).printToScreen rest := rfl
      rw [whole]
      refine ⟨?_, ?_, ?_⟩
      · rw [cursor, List.length_cons]
        omega
      · rw [List.length_cons, List.range_succ_eq_map, List.map_cons, List.map_map, Nat.add_zero,
          frame screen.vgaCol (Nat.lt_succ_self _), drawn _ (by omega), if_pos rfl]
        refine congrArg (c :: ·) (Eq.trans (List.map_congr_left ?_) cells)
        intro k _
        simp only [Function.comp, Nat.succ_eq_add_one, Nat.add_assoc, Nat.add_comm 1 k]
      · intro col before
        rw [frame col (by omega), drawn col (by omega), if_neg (Nat.ne_of_lt before)]

/-! ## The handler by characters -/

def pressCharacter (keyboard : KeyboardState) : Option Byte → KeyboardState × List Byte
  | none => (keyboard, [])
  | some c => keyboard.pressKey c

theorem pressCharacter_ofCode (keyboard : KeyboardState) (key : Byte) :
    (if key ≠ 0 then keyboard.pressKey key else (keyboard, [])) =
      pressCharacter keyboard (Key.ofCode key).character := by
  rw [Key.ofCode]
  by_cases nothing : key = 0
  · rw [if_neg (not_not.mpr nothing), if_pos nothing]
    rfl
  rw [if_pos nothing, if_neg nothing]
  by_cases enter : key = 10
  · rw [if_pos enter, enter]
    rfl
  rw [if_neg enter]
  by_cases backspace : key = 8
  · rw [if_pos backspace, backspace]
    rfl
  rw [if_neg backspace]
  rfl

/-- A run of the handler is the press of the character and a change of the flags. -/
structure Handles (keyboard : KeyboardState) (key : Key) (after : KeyboardState)
    (echo : List Byte) : Prop where
  buffer : after.inputBuffer = (pressCharacter keyboard key.character).1.inputBuffer
  index : after.bufferIndex = (pressCharacter keyboard key.character).1.bufferIndex
  echo : echo = (pressCharacter keyboard key.character).2
  shift : after.shiftPressed = key.shiftAfter keyboard.shiftPressed
  caps : after.capsLockOn = key.capsAfter keyboard.capsLockOn

theorem ofCode_flags (key : Byte) (shift caps : Bool) :
    (Key.ofCode key).shiftAfter shift = shift ∧ (Key.ofCode key).capsAfter caps = caps := by
  rw [Key.ofCode]
  split
  · exact ⟨rfl, rfl⟩
  split
  · exact ⟨rfl, rfl⟩
  split <;> exact ⟨rfl, rfl⟩

theorem pressCharacter_flags (keyboard : KeyboardState) (c : Option Byte) :
    (pressCharacter keyboard c).1.shiftPressed = keyboard.shiftPressed ∧
      (pressCharacter keyboard c).1.capsLockOn = keyboard.capsLockOn := by
  cases c with
  | none => exact ⟨rfl, rfl⟩
  | some c => exact pressKey_flags keyboard c

theorem keyboardHandler_handles (keyboard : KeyboardState) (scancode : Byte) :
    Handles keyboard (decode keyboard.shiftPressed keyboard.capsLockOn scancode)
      (keyboardHandler keyboard scancode).1 (keyboardHandler keyboard scancode).2 := by
  rw [keyboardHandler, decode]
  split
  · exact ⟨rfl, rfl, rfl, rfl, rfl⟩
  split
  · exact ⟨rfl, rfl, rfl, rfl, rfl⟩
  split
  · exact ⟨rfl, rfl, rfl, rfl, rfl⟩
  split
  · dsimp only
    rw [pressCharacter_ofCode]
    obtain ⟨shift, caps⟩ := ofCode_flags
      (keyOf keyboard.shiftPressed keyboard.capsLockOn scancode) keyboard.shiftPressed
      keyboard.capsLockOn
    obtain ⟨shift', caps'⟩ := pressCharacter_flags keyboard
      (Key.ofCode (keyOf keyboard.shiftPressed keyboard.capsLockOn scancode)).character
    exact ⟨rfl, rfl, rfl, shift'.trans shift.symm, caps'.trans caps.symm⟩
  · exact ⟨rfl, rfl, rfl, rfl, rfl⟩

theorem pressKey_backspace (keyboard : KeyboardState) : keyboard.pressKey 8 =
    if 0 < keyboard.bufferIndex then
      ({ keyboard with bufferIndex := keyboard.bufferIndex - 1 }, [8, 32, 8])
    else (keyboard, []) := rfl

theorem pressKey_char {keyboard : KeyboardState} {c : Byte} (noEnter : c ≠ 10)
    (noBackspace : c ≠ 8) (room : keyboard.bufferIndex < bufferSize - 1) :
    keyboard.pressKey c =
      ({ keyboard with
          inputBuffer := update keyboard.inputBuffer keyboard.bufferIndex c
          bufferIndex := keyboard.bufferIndex + 1 }, [c]) := by
  rw [KeyboardState.pressKey, if_neg noEnter, if_neg noBackspace, if_pos room]

theorem pressKey_index_le (keyboard : KeyboardState) (c : Byte) :
    (keyboard.pressKey c).1.bufferIndex ≤
      keyboard.bufferIndex + (keyboard.pressKey c).2.length := by
  rw [KeyboardState.pressKey]
  split
  · exact Nat.zero_le _
  split
  · split
    · exact (Nat.sub_le _ 1).trans (Nat.le_add_right _ _)
    · exact Nat.le_refl _
  split
  · exact Nat.le_refl _
  · exact Nat.le_refl _

theorem Handles.index_le {keyboard after : KeyboardState} {key : Key} {echo : List Byte}
    (handles : Handles keyboard key after echo) :
    after.bufferIndex ≤ keyboard.bufferIndex + echo.length := by
  rw [handles.index, handles.echo]
  cases key.character with
  | none => exact Nat.le_refl _
  | some c => exact pressKey_index_le keyboard c

/-! ## What is printed against what is kept -/

/-- No character is taken back, with `n` of them kept at the start. -/
def Appends : Nat → List Byte → Prop
  | _, [] => True
  | n, c :: rest => if c = 8 then n = 0 ∧ Appends n rest else Appends (n + 1) rest

theorem appends_succ_iff (n : Nat) (typed : List Byte) : Appends (n + 1) typed ↔ 8 ∉ typed := by
  induction typed generalizing n with
  | nil => simp [Appends]
  | cons c rest ih =>
      rw [Appends, List.mem_cons, not_or]
      by_cases backspace : c = 8
      · simp [backspace]
      · simp [backspace, ih, Ne.symm backspace]

theorem appends_zero_iff (typed : List Byte) :
    Appends 0 typed ↔ 8 ∉ typed.dropWhile fun c => decide (c = 8) := by
  induction typed with
  | nil => simp [Appends]
  | cons c rest ih =>
      rw [Appends]
      by_cases backspace : c = 8
      · simp [backspace, ih]
      · simp [backspace, appends_succ_iff, Ne.symm backspace]

/-- A printed line against the buffer: three cells and one lost character for each
backspace, and the same characters if there was none. -/
structure Prints (keyboard : KeyboardState) (typed : List Byte) (after : KeyboardState)
    (echo : List Byte) (erased : Nat) : Prop where
  noNewline : 10 ∉ echo
  length : echo.length + keyboard.bufferIndex = after.bufferIndex + 4 * erased
  none_iff : erased = 0 ↔ Appends keyboard.bufferIndex typed
  same : erased = 0 →
    echo = (List.range echo.length).map fun k => after.inputBuffer (keyboard.bufferIndex + k)
  frame : erased = 0 → ∀ k, k < keyboard.bufferIndex →
    after.inputBuffer k = keyboard.inputBuffer k

theorem Prints.nil (keyboard : KeyboardState) : Prints keyboard [] keyboard [] 0 where
  noNewline := List.not_mem_nil
  length := Nat.zero_add keyboard.bufferIndex
  none_iff := iff_of_true rfl trivial
  same := fun _ => rfl
  frame := fun _ _ _ => rfl

theorem Prints.silent {keyboard next after : KeyboardState} {typed pressed echo : List Byte}
    {erased : Nat} (index : next.bufferIndex = keyboard.bufferIndex)
    (buffer : next.inputBuffer = keyboard.inputBuffer)
    (appends : Appends keyboard.bufferIndex pressed ↔ Appends keyboard.bufferIndex typed)
    (rest : Prints next typed after echo erased) :
    Prints keyboard pressed after echo erased where
  noNewline := rest.noNewline
  length := by
    rw [← index]
    exact rest.length
  none_iff := by
    rw [appends, ← index]
    exact rest.none_iff
  same := by
    rw [← index]
    exact rest.same
  frame := by
    rw [← index, ← buffer]
    exact rest.frame

/-- The characters drawn for a backspace stay on the screen, the one taken back does as well. -/
theorem Prints.backspace {keyboard next after : KeyboardState} {typed echo : List Byte}
    {erased : Nat} (index : next.bufferIndex + 1 = keyboard.bufferIndex)
    (rest : Prints next typed after echo erased) :
    Prints keyboard (8 :: typed) after ([8, 32, 8] ++ echo) (erased + 1) where
  noNewline := by
    have later := rest.noNewline
    simp [later]
  length := by
    have counted := rest.length
    rw [List.length_append, List.length_cons, List.length_cons, List.length_cons, List.length_nil]
    omega
  none_iff := by
    have kept : keyboard.bufferIndex ≠ 0 := by omega
    rw [Appends, if_pos rfl]
    exact iff_of_false (Nat.succ_ne_zero erased) fun taken => kept taken.1
  same := fun none => absurd none (Nat.succ_ne_zero erased)
  frame := fun none => absurd none (Nat.succ_ne_zero erased)

theorem Prints.char {keyboard next after : KeyboardState} {typed echo : List Byte} {c : Byte}
    {erased : Nat} (noEnter : c ≠ 10) (noBackspace : c ≠ 8)
    (index : next.bufferIndex = keyboard.bufferIndex + 1)
    (buffer : next.inputBuffer = update keyboard.inputBuffer keyboard.bufferIndex c)
    (rest : Prints next typed after echo erased) :
    Prints keyboard (c :: typed) after (c :: echo) erased where
  noNewline := by
    rw [List.mem_cons, not_or]
    exact ⟨Ne.symm noEnter, rest.noNewline⟩
  length := by
    have counted := rest.length
    rw [List.length_cons]
    omega
  none_iff := by
    rw [Appends, if_neg noBackspace, ← index]
    exact rest.none_iff
  same := by
    intro none
    have kept : after.inputBuffer keyboard.bufferIndex = c := by
      rw [rest.frame none keyboard.bufferIndex (by omega), buffer, update_self]
    have later := rest.same none
    rw [List.length_cons, List.range_succ_eq_map, List.map_cons, List.map_map, Nat.add_zero, kept]
    apply congrArg (c :: ·)
    apply later.trans
    apply List.map_congr_left
    intro k _
    rw [index, Function.comp, Nat.succ_eq_add_one, Nat.add_assoc, Nat.add_comm 1 k]
  frame := by
    intro none k before
    rw [rest.frame none k (by omega), buffer, update_of_ne (Nat.ne_of_lt before)]

theorem Prints.cons {keyboard next after : KeyboardState} {key : Key} {first typed echo : List Byte}
    {erased : Nat} (handles : Handles keyboard key next first)
    (noEnter : 10 ∉ key.character.toList) (noBackspace : ∀ c, key = .char c → c ≠ 8)
    (room : keyboard.bufferIndex < bufferSize - 1) (rest : Prints next typed after echo erased) :
    ∃ erased', Prints keyboard (key.character.toList ++ typed) after (first ++ echo) erased' := by
  have buffer := handles.buffer
  have index := handles.index
  have printed := handles.echo
  cases key with
  | enter => exact absurd List.mem_cons_self noEnter
  | backspace =>
      rw [Key.character, pressCharacter, pressKey_backspace] at buffer index printed
      by_cases kept : 0 < keyboard.bufferIndex
      · rw [if_pos kept] at index printed
        rw [printed]
        have taken : next.bufferIndex + 1 = keyboard.bufferIndex := by
          rw [index]
          exact Nat.sub_add_cancel kept
        exact ⟨erased + 1, rest.backspace taken⟩
      · rw [if_neg kept] at buffer index printed
        rw [printed]
        have appends : Appends keyboard.bufferIndex (8 :: typed) ↔
            Appends keyboard.bufferIndex typed := by
          rw [Appends, if_pos rfl]
          exact and_iff_right (Nat.eq_zero_of_not_pos kept)
        exact ⟨erased, rest.silent index buffer appends⟩
  | char c =>
      have enter : c ≠ 10 := fun ten => noEnter (ten ▸ List.mem_cons_self)
      rw [Key.character, pressCharacter, pressKey_char enter (noBackspace c rfl) room]
        at buffer index printed
      rw [printed]
      exact ⟨erased, rest.char enter (noBackspace c rfl) index buffer⟩
  | shift _ | capsLock | nothing =>
      rw [printed]
      exact ⟨erased, rest.silent index buffer Iff.rfl⟩

theorem handleAll_prints (keyboard : KeyboardState) (scancodes : List Byte)
    (noEnter : 10 ∉ characters keyboard.shiftPressed keyboard.capsLockOn scancodes)
    (room : keyboard.bufferIndex + (echoed keyboard scancodes).length < bufferSize - 1) :
    ∃ erased, Prints keyboard (characters keyboard.shiftPressed keyboard.capsLockOn scancodes)
      (handleAll keyboard scancodes) (echoed keyboard scancodes) erased := by
  induction scancodes generalizing keyboard with
  | nil => exact ⟨0, Prints.nil keyboard⟩
  | cons scancode rest ih =>
      have handles := keyboardHandler_handles keyboard scancode
      rw [characters, List.mem_append, not_or, ← handles.shift, ← handles.caps] at noEnter
      rw [echoed, List.length_append] at room
      have grown := handles.index_le
      obtain ⟨erased, prints⟩ := ih _ noEnter.2 (by omega)
      rw [characters, echoed, ← handles.shift, ← handles.caps]
      apply Prints.cons handles noEnter.1 ?_ (by omega) prints
      intro c char
      exact (decode_char char).2

/-! ## The row -/

/-- From an empty buffer, within a row and without Enter: the characters on the screen are those
in `input_buffer` exactly if no backspace comes after the first other character. -/
theorem echo_matches_iff (keyboard : KeyboardState) (screen : Vga) (scancodes : List Byte)
    (empty : keyboard.bufferIndex = 0) (row : screen.vgaRow < vgaHeight)
    (noEnter : 10 ∉ characters keyboard.shiftPressed keyboard.capsLockOn scancodes)
    (inRow : screen.vgaCol + (echoed keyboard scancodes).length < vgaWidth) :
    shown (echoAll keyboard screen scancodes).2 screen.vgaRow screen.vgaCol =
        buffered (echoAll keyboard screen scancodes).1 ↔
      8 ∉ (characters keyboard.shiftPressed keyboard.capsLockOn scancodes).dropWhile
        fun c => decide (c = 8) := by
  have room : keyboard.bufferIndex + (echoed keyboard scancodes).length < bufferSize - 1 := by
    unfold vgaWidth at inRow
    unfold bufferSize
    omega
  obtain ⟨erased, prints⟩ := handleAll_prints keyboard scancodes noEnter room
  obtain ⟨cursor, cells, _⟩ := print_in_row row prints.noNewline inRow
  have counted := prints.length
  have drawn : shown (screen.printToScreen (echoed keyboard scancodes)) screen.vgaRow
      screen.vgaCol = echoed keyboard scancodes := by
    rw [shown, cursor, Nat.add_sub_cancel_left]
    exact cells
  rw [echoAll_eq, drawn, buffered, ← appends_zero_iff, ← empty, ← prints.none_iff]
  constructor
  · intro matched
    have lengths : (echoed keyboard scancodes).length =
        (handleAll keyboard scancodes).bufferIndex := by
      simpa using congrArg List.length matched
    omega
  · intro none
    have same := prints.same none
    have index : (echoed keyboard scancodes).length =
        (handleAll keyboard scancodes).bufferIndex := by omega
    simp only [empty, Nat.zero_add, index] at same
    exact same

/-- `vga_row` and `vga_col` as they are at the start. -/
def bootScreen : Vga := ⟨fun _ => 0, 0, 0, []⟩

/-- A backspace, a letter with Shift, a letter and a digit, from the tenth column of a row. -/
theorem echo_matches_iff_letters :
    shown (echoAll bootKeyboard ⟨fun _ => 0, 3, 10, []⟩ [0x0E, 0x2A, 0x1E, 0xAA, 0x30, 0x02]).2
        3 10 =
        buffered (echoAll bootKeyboard ⟨fun _ => 0, 3, 10, []⟩
          [0x0E, 0x2A, 0x1E, 0xAA, 0x30, 0x02]).1 ↔
      8 ∉ ([8, 65, 98, 49] : List Byte).dropWhile fun c => decide (c = 8) :=
  echo_matches_iff bootKeyboard ⟨fun _ => 0, 3, 10, []⟩ [0x0E, 0x2A, 0x1E, 0xAA, 0x30, 0x02] rfl
    (by decide) (by decide) (by decide)

/-- The letter a and a backspace: nothing is kept, and a, a backspace, a space and a backspace
are on the screen. -/
theorem echo_differs :
    10 ∉ characters false false [0x1E, 0x0E] ∧
      (echoed bootKeyboard [0x1E, 0x0E]).length < vgaWidth ∧
      shown (echoAll bootKeyboard bootScreen [0x1E, 0x0E]).2 0 0 = [97, 8, 32, 8] ∧
      buffered (echoAll bootKeyboard bootScreen [0x1E, 0x0E]).1 = [] := by
  decide

end ApnaOS.Screen
