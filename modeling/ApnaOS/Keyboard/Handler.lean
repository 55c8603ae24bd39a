import ApnaOS.Lib.Transition
import ApnaOS.Keyboard.StringOps

/-!
# The keyboard handler and the shell's read_line

`keyboard_handler` runs once for each scancode the controller delivers and fills
`input_buffer`; Enter copies it to `input_line` and sets `input_ready`.  `read_line` waits
for the flag, takes the line and clears the flag.
-/

set_option autoImplicit false

namespace ApnaOS.Keyboard

open ApnaOS.Lib
open ApnaOS.StringOps (Byte Bytes)
open Function (update)

def bufferSize : Nat := 256

def code (c : Char) : Byte := UInt8.ofNat c.toNat

/-- The first 58 of the 128 entries, the others are 0.  39 is an apostrophe, 96 a
backquote and 92 a backslash. -/
def scancodeToAscii : List Byte :=
  [0, 27] ++ ['1', '2', '3', '4', '5', '6'].map code ++
  ['7', '8', '9', '0', '-', '='].map code ++ [8, 9] ++
  ['q', 'w', 'e', 'r', 't', 'y', 'u', 'i'].map code ++
  ['o', 'p', '[', ']'].map code ++ [10, 0] ++ ['a', 's'].map code ++
  ['d', 'f', 'g', 'h', 'j', 'k', 'l', ';'].map code ++
  [39, 96, 0, 92] ++ ['z', 'x', 'c', 'v'].map code ++
  ['b', 'n', 'm', ',', '.', '/'].map code ++ [0, 42] ++
  [0, 32]

/-- As above; 34 is a double quote, 123 and 125 are braces. -/
def scancodeToAsciiShift : List Byte :=
  [0, 27] ++ ['!', '@', '#', '$', '%', '^'].map code ++
  ['&', '*', '(', ')', '_', '+'].map code ++ [8, 9] ++
  ['Q', 'W', 'E', 'R', 'T', 'Y', 'U', 'I'].map code ++
  ['O', 'P'].map code ++ [123, 125] ++ [10, 0] ++ ['A', 'S'].map code ++
  ['D', 'F', 'G', 'H', 'J', 'K', 'L', ':'].map code ++
  [34, 126, 0, 124] ++ ['Z', 'X', 'C', 'V'].map code ++
  ['B', 'N', 'M', '<', '>', '?'].map code ++ [0, 42] ++
  [0, 32]

structure KeyboardState where
  inputBuffer : Bytes
  inputReady : Bool
  inputLine : Bytes
  bufferIndex : Nat
  shiftPressed : Bool
  capsLockOn : Bool

def bootKeyboard : KeyboardState where
  inputBuffer := fun _ => 0
  inputReady := false
  inputLine := fun _ => 0
  bufferIndex := 0
  shiftPressed := false
  capsLockOn := false

/-- The variable `key` of `keyboard_handler` when the scancode is not a release. -/
def keyOf (shiftPressed capsLockOn : Bool) (scancode : Byte) : Byte :=
  let key :=
    if shiftPressed then scancodeToAsciiShift.getD scancode.toNat 0
    else scancodeToAscii.getD scancode.toNat 0
  if 97 ≤ key ∧ key ≤ 122 then
    if capsLockOn ^^ shiftPressed then key - 32 else key
  else key

/-- The loop that copies `input_buffer` to `input_line`: the line and the index at its end. -/
def copyLine (inputBuffer : Bytes) : (fuel i : Nat) → Bytes → Bytes × Nat
  | 0, i, inputLine => (inputLine, i)
  | fuel + 1, i, inputLine =>
      if inputBuffer i ≠ 0 ∧ i < bufferSize then
        copyLine inputBuffer fuel (i + 1) (update inputLine i (inputBuffer i))
      else (inputLine, i)

namespace KeyboardState

/-- The branch of `keyboard_handler` for `'\n'`. -/
def enterLine (keyboard : KeyboardState) : KeyboardState :=
  let inputBuffer := update keyboard.inputBuffer keyboard.bufferIndex 0
  let (inputLine, i) := copyLine inputBuffer bufferSize 0 keyboard.inputLine
  { keyboard with
    inputBuffer := inputBuffer, inputLine := update inputLine i 0, inputReady := true
    bufferIndex := 0 }

def pressKey (keyboard : KeyboardState) (key : Byte) : KeyboardState × List Byte :=
  if key = 10 then (keyboard.enterLine, [10])
  else if key = 8 then
    if 0 < keyboard.bufferIndex then
      ({ keyboard with bufferIndex := keyboard.bufferIndex - 1 }, [8, 32, 8])
    else (keyboard, [])
  else if keyboard.bufferIndex < bufferSize - 1 then
    ({ keyboard with
        inputBuffer := update keyboard.inputBuffer keyboard.bufferIndex key
        bufferIndex := keyboard.bufferIndex + 1 }, [key])
  else (keyboard, [])

end KeyboardState

/-- `keyboard_handler` on the byte read from the port: the new state and the characters
given to `print_to_screen`. -/
def keyboardHandler (keyboard : KeyboardState) (scancode : Byte) : KeyboardState × List Byte :=
  if scancode = 0x2A ∨ scancode = 0x36 then ({ keyboard with shiftPressed := true }, [])
  else if scancode = 0xAA ∨ scancode = 0xB6 then ({ keyboard with shiftPressed := false }, [])
  else if scancode = 0x3A then ({ keyboard with capsLockOn := !keyboard.capsLockOn }, [])
  else if scancode &&& 0x80 = 0 then
    let key := keyOf keyboard.shiftPressed keyboard.capsLockOn scancode
    if key ≠ 0 then keyboard.pressKey key else (keyboard, [])
  else (keyboard, [])

/-- The loop of `read_line`: the bytes stored in `buffer` in front of the terminator. -/
def readLoop (inputLine : Bytes) (maxLength : Int) : (fuel i : Nat) → List Byte
  | 0, _ => []
  | fuel + 1, i =>
      if inputLine i ≠ 0 ∧ (i : Int) < maxLength - 1 then
        inputLine i :: readLoop inputLine maxLength fuel (i + 1)
      else []

/-- `read_line` once `input_ready` is set. -/
def readLine (keyboard : KeyboardState) (maxLength : Int) : List Byte × KeyboardState :=
  (readLoop keyboard.inputLine maxLength bufferSize 0, { keyboard with inputReady := false })

/-! ## Runs -/

inductive ConsoleAction where
  | interrupt (scancode : Byte)
  | readLine (maxLength : Int)

def consoleStep (keyboard : KeyboardState) : ConsoleAction → Option KeyboardState
  | .interrupt scancode => some (keyboardHandler keyboard scancode).1
  | .readLine maxLength =>
      if keyboard.inputReady then some (readLine keyboard maxLength).2 else none

def consoleSystem : System KeyboardState ConsoleAction where
  initial keyboard := keyboard = bootKeyboard
  step := consoleStep

end ApnaOS.Keyboard
