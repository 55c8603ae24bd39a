import ApnaOS.Keyboard.LineEditor

/-!
# Which lines read_line returns

`input_line` holds one line.  A line is returned if `read_line` takes it before Enter
completes the next one, and is lost if not.
-/

set_option autoImplicit false

namespace ApnaOS.Keyboard

open ApnaOS.Lib
open ApnaOS.StringOps (Byte Bytes)

inductive LineEvent where
  | entered (line : List Byte)
  | read (maxLength : Int)

/-- The lines completed and the calls of `read_line` in a run, in order. -/
def lineEvents : Editor → List ConsoleAction → List LineEvent
  | _, [] => []
  | editor, .interrupt scancode :: rest =>
      ((editor.scan scancode).2.map LineEvent.entered).toList ++
        lineEvents (editor.scan scancode).1 rest
  | editor, .readLine maxLength :: rest => .read maxLength :: lineEvents editor rest

/-- The lines followed by a call of `read_line` and not by another line, each cut to
`max_length - 1` characters. -/
def delivered : List LineEvent → List (List Byte)
  | .entered line :: .read maxLength :: rest =>
      line.take (maxLength - 1).toNat :: delivered rest
  | _ :: rest => delivered rest
  | [] => []

def returned (trace : List (Transition KeyboardState ConsoleAction)) : List (List Byte) :=
  trace.filterMap fun transition =>
    match transition.action with
    | .interrupt _ => none
    | .readLine maxLength => some (readLine transition.before maxLength).1

def LineEvent.isEntered : LineEvent → Bool
  | .entered _ => true
  | .read _ => false

/-- How many lines are followed by another line and not by a call of `read_line`. -/
def overwritten : List LineEvent → Nat
  | .entered _ :: .entered line :: rest => overwritten (.entered line :: rest) + 1
  | _ :: rest => overwritten rest
  | [] => 0

def waiting (pending : Option (List Byte)) : List LineEvent :=
  (pending.map LineEvent.entered).toList

theorem step_readLine {keyboard next : KeyboardState} {maxLength : Int} :
    consoleSystem.step keyboard (.readLine maxLength) = some next ↔
      keyboard.inputReady = true ∧ (readLine keyboard maxLength).2 = next := by
  simp [consoleSystem, consoleStep]

/-- What holds of a run that starts with a line in the line buffer or with none. -/
structure Delivers (trace : List (Transition KeyboardState ConsoleAction)) (last : KeyboardState)
    (events : List LineEvent) : Prop where
  returned : returned trace = delivered events
  counted : events.countP LineEvent.isEntered =
    (delivered events).length + overwritten events + if last.inputReady then 1 else 0

theorem delivers_run {keyboard last : KeyboardState}
    {trace : List (Transition KeyboardState ConsoleAction)}
    (run : consoleSystem.Trace keyboard trace last) {editor : Editor}
    {pending : Option (List Byte)} (edits : Edits keyboard editor) (holds : Holds keyboard pending) :
    Delivers trace last (waiting pending ++ lineEvents editor (trace.map Transition.action)) := by
  induction run generalizing editor pending with
  | nil keyboard =>
      cases pending with
      | none => exact ⟨rfl, by rw [holds.ready]; rfl⟩
      | some line => exact ⟨rfl, by rw [holds.ready]; rfl⟩
  | @cons keyboard next last action rest taken _ ih =>
      cases action with
      | interrupt scancode =>
          have moved : (keyboardHandler keyboard scancode).1 = next := Option.some.inj taken
          obtain ⟨edits', holds'⟩ := keyboardHandler_edits edits holds scancode
          rw [moved] at edits' holds'
          have later := ih edits' holds'
          rw [List.map_cons, lineEvents]
          cases completed : (editor.scan scancode).2 with
          | none =>
              rw [completed] at later
              exact ⟨later.returned, later.counted⟩
          | some line =>
              rw [completed] at later
              cases pending with
              | none => exact ⟨later.returned, later.counted⟩
              | some old =>
                  -- the new line takes the place of the old one
                  refine ⟨later.returned, ?_⟩
                  have counted := later.counted
                  simp only [waiting, Option.some_or, Option.map_some, Option.toList_some,
                    List.cons_append, List.nil_append, List.countP_cons, LineEvent.isEntered,
                    if_true, delivered, overwritten] at counted ⊢
                  omega
      | readLine maxLength =>
          obtain ⟨ready, moved⟩ := step_readLine.mp taken
          rw [holds.ready] at ready
          obtain ⟨line, waits⟩ := Option.isSome_iff_exists.mp ready
          have taken_line : (readLine keyboard maxLength).1 = line.take (maxLength - 1).toNat := by
            have held := holds.line line waits
            have left : line.length ≤ 0 + bufferSize := by
              have fits := held.fits
              omega
            exact held.readLoop maxLength left (Nat.zero_le _)
          have edits' : Edits next editor := by
            rw [← moved]
            exact ⟨edits.shift, edits.caps, edits.index, edits.fits, edits.bytes, edits.nonzero⟩
          have holds' : Holds next none := by
            rw [← moved]
            exact ⟨rfl, fun _ clash => by cases clash⟩
          have later := ih edits' holds'
          have counted := later.counted
          rw [waits]
          refine ⟨?_, ?_⟩
          · rw [returned, List.filterMap_cons]
            exact congrArg₂ List.cons taken_line later.returned
          · simp only [waiting, Option.map_none, Option.toList_none, List.nil_append,
              Option.map_some, Option.toList_some, List.cons_append, List.map_cons, lineEvents,
              List.countP_cons, LineEvent.isEntered, Bool.false_eq_true, if_true, if_false,
              delivered, overwritten, List.length_cons] at counted ⊢
            omega

/-- In every run of interrupts and calls of `read_line` the lines returned are those
followed by such a call and not by another line, in order and cut to `max_length - 1`
characters.  Each completed line is returned, overwritten or still waiting. -/
theorem lines_delivered {first last : KeyboardState}
    {trace : List (Transition KeyboardState ConsoleAction)}
    (initial : consoleSystem.initial first) (run : consoleSystem.Trace first trace last) :
    returned trace = delivered (lineEvents Editor.start (trace.map Transition.action)) ∧
    (lineEvents Editor.start (trace.map Transition.action)).countP LineEvent.isEntered =
      (returned trace).length +
        overwritten (lineEvents Editor.start (trace.map Transition.action)) +
        if last.inputReady then 1 else 0 := by
  have started : first = bootKeyboard := initial
  rw [started] at run
  have empty : Holds bootKeyboard none := ⟨rfl, fun _ clash => by cases clash⟩
  have delivers := delivers_run run edits_boot empty
  refine ⟨delivers.returned, ?_⟩
  rw [delivers.returned]
  exact delivers.counted

/-- A line is overwritten, one is read, one is cut, and one is not read. -/
def fourLines : List ConsoleAction :=
  [.interrupt 0x1E, .interrupt 0x30, .interrupt 0x1C, .interrupt 0x2E, .interrupt 0x1C,
    .readLine 128, .interrupt 0x20, .interrupt 0x12, .interrupt 0x21, .interrupt 0x1C,
    .readLine 3, .interrupt 0x22, .interrupt 0x1C]

theorem lines_delivered_four : ∃ trace last,
    consoleSystem.record bootKeyboard fourLines = some (trace, last) ∧
    returned trace = [[99], [100, 101]] ∧
    returned trace = delivered (lineEvents Editor.start (trace.map Transition.action)) ∧
    (lineEvents Editor.start (trace.map Transition.action)).countP LineEvent.isEntered =
      (returned trace).length +
        overwritten (lineEvents Editor.start (trace.map Transition.action)) +
        if last.inputReady then 1 else 0 := by
  have runs : (consoleSystem.record bootKeyboard fourLines).any fun run =>
      decide (returned run.1 = [[99], [100, 101]]) := by
    decide +kernel
  obtain ⟨⟨trace, last⟩, recorded, checked⟩ := (Option.any_eq_true ..).mp runs
  exact ⟨trace, last, recorded, of_decide_eq_true checked,
    lines_delivered rfl (System.trace_of_record recorded)⟩

def LineEvent.line : LineEvent → Option (List Byte)
  | .entered line => some line
  | .read _ => none

def LineEvent.maxLength : LineEvent → Option Int
  | .entered _ => none
  | .read maxLength => some maxLength

/-- Enter after `a` and Enter after `b`, and then one call of `read_line`: it returns the
second line, and the first one is lost. -/
theorem second_line_overwrites : ¬ ∀ first trace last, consoleSystem.initial first →
    consoleSystem.Trace first trace last → last.inputReady = false →
      returned trace = List.zipWith (fun line maxLength => line.take (maxLength - 1).toNat)
        ((lineEvents Editor.start (trace.map Transition.action)).filterMap LineEvent.line)
        ((lineEvents Editor.start (trace.map Transition.action)).filterMap
          LineEvent.maxLength) := by
  intro always
  have runs : (consoleSystem.record bootKeyboard [.interrupt 0x1E, .interrupt 0x1C,
      .interrupt 0x30, .interrupt 0x1C, .readLine 128]).any fun run =>
        decide (run.2.inputReady = false ∧ returned run.1 ≠
          List.zipWith (fun line maxLength => line.take (maxLength - 1).toNat)
            ((lineEvents Editor.start (run.1.map Transition.action)).filterMap LineEvent.line)
            ((lineEvents Editor.start (run.1.map Transition.action)).filterMap
              LineEvent.maxLength)) := by
    decide +kernel
  obtain ⟨⟨trace, last⟩, recorded, checked⟩ := (Option.any_eq_true ..).mp runs
  obtain ⟨taken, differs⟩ := of_decide_eq_true checked
  exact differs (always bootKeyboard trace last rfl (System.trace_of_record recorded) taken)

end ApnaOS.Keyboard
