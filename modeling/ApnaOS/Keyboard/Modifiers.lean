import ApnaOS.Keyboard.Lines

/-!
# Shift and Caps Lock

The handler keeps one flag for two Shift keys, and looks a key up in the shifted table before
it applies the rule for letters.  What is down is followed here by the keys themselves.
-/

set_option autoImplicit false

namespace ApnaOS.Keyboard

open ApnaOS.StringOps (Byte)

/-! ## The keys -/

/-- Which Shift keys are down, how often Caps Lock was pressed, and whether the last event
of a Shift key was a press. -/
structure Modifiers where
  leftHeld : Bool
  rightHeld : Bool
  capsPresses : Nat
  lastPressed : Bool

namespace Modifiers

def start : Modifiers := ⟨false, false, 0, false⟩

def after (modifiers : Modifiers) (scancode : Byte) : Modifiers :=
  if scancode = 0x2A then { modifiers with leftHeld := true, lastPressed := true }
  else if scancode = 0x36 then { modifiers with rightHeld := true, lastPressed := true }
  else if scancode = 0xAA then { modifiers with leftHeld := false, lastPressed := false }
  else if scancode = 0xB6 then { modifiers with rightHeld := false, lastPressed := false }
  else if scancode = 0x3A then { modifiers with capsPresses := modifiers.capsPresses + 1 }
  else modifiers

def held (modifiers : Modifiers) : Bool := modifiers.leftHeld || modifiers.rightHeld

def capsOdd (modifiers : Modifiers) : Bool := decide (modifiers.capsPresses % 2 = 1)

end Modifiers

def modifiersAfter (scancodes : List Byte) : Modifiers :=
  scancodes.foldl Modifiers.after .start

/-- The make code of a key that is no modifier. -/
def IsKeyPress (scancode : Byte) : Prop :=
  scancode &&& 0x80 = 0 ∧ scancode ≠ 0x2A ∧ scancode ≠ 0x36 ∧ scancode ≠ 0x3A

def lowerCase (scancode : Byte) : Byte := scancodeToAscii.getD scancode.toNat 0

def IsLetter (scancode : Byte) : Prop := 97 ≤ lowerCase scancode ∧ lowerCase scancode ≤ 122

instance (scancode : Byte) : Decidable (IsKeyPress scancode) :=
  inferInstanceAs (Decidable (_ ∧ _))

instance (scancode : Byte) : Decidable (IsLetter scancode) :=
  inferInstanceAs (Decidable (_ ∧ _))

/-- The table that `keyboard_handler` looks the key up in. -/
def tableOf (shiftPressed : Bool) : List Byte :=
  if shiftPressed then scancodeToAsciiShift else scancodeToAscii

/-- A letter comes out in upper case, and another key out of the shifted table, as the keys
that are down and the presses of Caps Lock ask for. -/
def PressCorrect (modifiers : Modifiers) (keyboard : KeyboardState) (scancode : Byte) : Prop :=
  (IsLetter scancode →
    (keyOf keyboard.shiftPressed keyboard.capsLockOn scancode = lowerCase scancode - 32 ↔
      (modifiers.capsOdd ^^ modifiers.held) = true)) ∧
  (¬ IsLetter scancode →
    (tableOf keyboard.shiftPressed = scancodeToAsciiShift ↔ modifiers.held = true))

/-- With Caps Lock on a letter is pressed with no Shift down; and no other key is pressed
with a Shift down after the other one was released. -/
def PressMeets (modifiers : Modifiers) (scancode : Byte) : Prop :=
  if IsLetter scancode ∧ modifiers.capsOdd = true then modifiers.held = false
  else modifiers.held = true → modifiers.lastPressed = true

instance (modifiers : Modifiers) (scancode : Byte) : Decidable (PressMeets modifiers scancode) :=
  inferInstanceAs (Decidable (if IsLetter scancode ∧ modifiers.capsOdd = true then
    modifiers.held = false else modifiers.held = true → modifiers.lastPressed = true))

/-! ## The flags -/

/-- What the flags of the handler are, and that a key pressed last is down. -/
structure Tracks (keyboard : KeyboardState) (modifiers : Modifiers) : Prop where
  shift : keyboard.shiftPressed = modifiers.lastPressed
  caps : keyboard.capsLockOn = modifiers.capsOdd
  down : modifiers.lastPressed = true → modifiers.held = true

theorem tracks_boot : Tracks bootKeyboard .start := ⟨rfl, rfl, fun clash => by cases clash⟩

theorem pressKey_flags (keyboard : KeyboardState) (key : Byte) :
    (keyboard.pressKey key).1.shiftPressed = keyboard.shiftPressed ∧
      (keyboard.pressKey key).1.capsLockOn = keyboard.capsLockOn := by
  rw [KeyboardState.pressKey]
  split
  · exact ⟨rfl, rfl⟩
  split
  · split <;> exact ⟨rfl, rfl⟩
  split <;> exact ⟨rfl, rfl⟩

theorem Tracks.step {keyboard : KeyboardState} {modifiers : Modifiers}
    (tracks : Tracks keyboard modifiers) (scancode : Byte) :
    Tracks (keyboardHandler keyboard scancode).1 (modifiers.after scancode) := by
  rw [keyboardHandler, Modifiers.after]
  by_cases left : scancode = 0x2A
  · rw [if_pos (Or.inl left), if_pos left]
    exact ⟨rfl, tracks.caps, fun _ => rfl⟩
  rw [if_neg left]
  by_cases right : scancode = 0x36
  · rw [if_pos (Or.inr right), if_pos right]
    exact ⟨rfl, tracks.caps, fun _ => Bool.or_true _⟩
  rw [if_neg right, if_neg (fun shift => shift.elim left right)]
  by_cases leftUp : scancode = 0xAA
  · rw [if_pos (Or.inl leftUp), if_pos leftUp]
    exact ⟨rfl, tracks.caps, fun clash => by cases clash⟩
  rw [if_neg leftUp]
  by_cases rightUp : scancode = 0xB6
  · rw [if_pos (Or.inr rightUp), if_pos rightUp]
    exact ⟨rfl, tracks.caps, fun clash => by cases clash⟩
  rw [if_neg rightUp, if_neg (fun shift => shift.elim leftUp rightUp)]
  by_cases capsLock : scancode = 0x3A
  · rw [if_pos capsLock, if_pos capsLock]
    refine ⟨tracks.shift, ?_, tracks.down⟩
    have caps := tracks.caps
    show (!keyboard.capsLockOn) = decide ((modifiers.capsPresses + 1) % 2 = 1)
    rw [caps, Modifiers.capsOdd]
    by_cases odd : modifiers.capsPresses % 2 = 1
    · have even : ¬ (modifiers.capsPresses + 1) % 2 = 1 := by omega
      rw [decide_eq_true odd, decide_eq_false even]
      rfl
    · have odd' : (modifiers.capsPresses + 1) % 2 = 1 := by omega
      rw [decide_eq_false odd, decide_eq_true odd']
      rfl
  rw [if_neg capsLock, if_neg capsLock]
  split
  · dsimp only
    split
    · obtain ⟨shift, caps⟩ := pressKey_flags keyboard
        (keyOf keyboard.shiftPressed keyboard.capsLockOn scancode)
      exact ⟨shift.trans tracks.shift, caps.trans tracks.caps, tracks.down⟩
    · exact tracks
  · exact tracks

theorem handleAll_tracks {keyboard : KeyboardState} {modifiers : Modifiers}
    (tracks : Tracks keyboard modifiers) (scancodes : List Byte) :
    Tracks (handleAll keyboard scancodes) (scancodes.foldl Modifiers.after modifiers) := by
  induction scancodes generalizing keyboard modifiers with
  | nil => exact tracks
  | cons scancode rest ih => exact ih (tracks.step scancode)

/-! ## The tables -/

theorem letter_entries (n : Nat) (letter : 97 ≤ scancodeToAscii.getD n 0 ∧
    scancodeToAscii.getD n 0 ≤ 122) :
    scancodeToAsciiShift.getD n 0 = scancodeToAscii.getD n 0 - 32 ∧
      ¬ (97 ≤ scancodeToAscii.getD n 0 - 32 ∧ scancodeToAscii.getD n 0 - 32 ≤ 122) ∧
      scancodeToAscii.getD n 0 - 32 ≠ scancodeToAscii.getD n 0 := by
  have entries : ∀ m < 58, 97 ≤ scancodeToAscii.getD m 0 ∧ scancodeToAscii.getD m 0 ≤ 122 →
      scancodeToAsciiShift.getD m 0 = scancodeToAscii.getD m 0 - 32 ∧
        ¬ (97 ≤ scancodeToAscii.getD m 0 - 32 ∧ scancodeToAscii.getD m 0 - 32 ≤ 122) ∧
        scancodeToAscii.getD m 0 - 32 ≠ scancodeToAscii.getD m 0 := by
    decide
  by_cases inside : n < 58
  · exact entries n inside letter
  · have beyond : scancodeToAscii.getD n 0 = 0 := by
      rw [List.getD_eq_getElem?_getD, List.getElem?_eq_none (Nat.le_of_not_lt inside)]
      rfl
    rw [beyond] at letter
    exact absurd letter.1 (by decide)

/-- A letter comes out in upper case with either flag set. -/
theorem keyOf_letter {scancode : Byte} (letter : IsLetter scancode) (shift caps : Bool) :
    keyOf shift caps scancode = lowerCase scancode - 32 ↔ (shift || caps) = true := by
  obtain ⟨shifted, upper, different⟩ := letter_entries scancode.toNat letter
  have letter' : 97 ≤ scancodeToAscii.getD scancode.toNat 0 ∧
      scancodeToAscii.getD scancode.toNat 0 ≤ 122 := letter
  rw [keyOf, lowerCase]
  cases shift with
  | true => simp only [if_true, shifted, if_neg upper, Bool.true_or]
  | false =>
      simp only [Bool.false_eq_true, if_false, if_pos letter', Bool.xor_false, Bool.false_or]
      cases caps with
      | true => simp only [if_true]
      | false => simpa only [Bool.false_eq_true, if_false, iff_false] using different.symm

theorem tableOf_eq_iff (shift : Bool) :
    tableOf shift = scancodeToAsciiShift ↔ shift = true := by
  cases shift <;> decide

theorem Tracks.correct_iff {keyboard : KeyboardState} {modifiers : Modifiers}
    (tracks : Tracks keyboard modifiers) (scancode : Byte) :
    PressCorrect modifiers keyboard scancode ↔ PressMeets modifiers scancode := by
  have down := tracks.down
  rw [PressCorrect, PressMeets, tracks.shift, tracks.caps, tableOf_eq_iff]
  by_cases letter : IsLetter scancode
  · rw [keyOf_letter letter]
    simp only [letter, forall_const, not_true_eq_false, false_imp_iff, and_true, true_and]
    revert down
    cases modifiers.capsOdd <;> cases modifiers.held <;> cases modifiers.lastPressed <;> decide
  · simp only [letter, false_imp_iff, not_false_eq_true, forall_const, true_and, false_and,
      if_false]
    exact ⟨fun same => same.mpr, fun up => ⟨down, up⟩⟩

/-- In every sequence of scancodes all presses come out as they should exactly when none is
made in one of the two situations the handler gets wrong. -/
theorem modifier_keys_iff (scancodes : List Byte) :
    (∀ before scancode rest, scancodes = before ++ scancode :: rest → IsKeyPress scancode →
      PressCorrect (modifiersAfter before) (handleAll bootKeyboard before) scancode) ↔
    ∀ before scancode rest, scancodes = before ++ scancode :: rest → IsKeyPress scancode →
      PressMeets (modifiersAfter before) scancode := by
  have pointwise : ∀ before scancode,
      PressCorrect (modifiersAfter before) (handleAll bootKeyboard before) scancode ↔
        PressMeets (modifiersAfter before) scancode :=
    fun before scancode => (handleAll_tracks tracks_boot before).correct_iff scancode
  simp only [pointwise]

/-- Both Shift keys down and one of them released; and Shift with Caps Lock on. -/
theorem modifier_keys_wrong :
    (¬ ∀ scancodes before scancode rest, scancodes = before ++ scancode :: rest →
      IsKeyPress scancode →
        PressCorrect (modifiersAfter before) (handleAll bootKeyboard before) scancode) ∧
    ¬ PressCorrect (modifiersAfter [0x2A, 0x36, 0xAA]) (handleAll bootKeyboard [0x2A, 0x36, 0xAA])
        0x1E ∧
    ¬ PressCorrect (modifiersAfter [0x3A, 0x2A]) (handleAll bootKeyboard [0x3A, 0x2A]) 0x1E := by
  have two : ¬ PressCorrect (modifiersAfter [0x2A, 0x36, 0xAA])
      (handleAll bootKeyboard [0x2A, 0x36, 0xAA]) 0x1E := by
    have tracks : Tracks _ (modifiersAfter [0x2A, 0x36, 0xAA]) := handleAll_tracks tracks_boot _
    rw [tracks.correct_iff]
    decide
  have caps : ¬ PressCorrect (modifiersAfter [0x3A, 0x2A]) (handleAll bootKeyboard [0x3A, 0x2A])
      0x1E := by
    have tracks : Tracks _ (modifiersAfter [0x3A, 0x2A]) := handleAll_tracks tracks_boot _
    rw [tracks.correct_iff]
    decide
  refine ⟨fun always => ?_, two, caps⟩
  exact two (always [0x2A, 0x36, 0xAA, 0x1E] [0x2A, 0x36, 0xAA] 0x1E [] rfl (by decide))

end ApnaOS.Keyboard
