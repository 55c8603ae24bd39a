import ApnaOS.Keyboard.Delivery
import ApnaOS.Screen.Canvas
import ApnaOS.Screen.Echo
import ApnaOS.Shell.Session

/-!
# Keyboard, shell, file system and screen together

`keyboard_handler` and `cli_loop` share the line buffer and the screen.  An interrupt is one
step, and so is a round of the loop from the return of `read_line` to the next prompt.  When a
process has the CPU it prints, or it leaves the CPU to a new shell.  Seen from the chair there
is a line editor over a catalog of files.
-/

set_option autoImplicit false

namespace ApnaOS.Shell

open ApnaOS.Lib ApnaOS.FileSystem ApnaOS.Keyboard ApnaOS.Screen
open ApnaOS.StringOps (Byte Bytes)

/-! ## The code -/

structure Terminal where
  keyboard : KeyboardState
  disk : Disk
  screen : Vga
  stage : Stage

inductive TerminalAction where
  | interrupt (scancode : Byte)
  /-- `buffer` is what the array of the read branch holds; a process that is asked for is
  `served` if there is memory for it. -/
  | round (buffer : Bytes) (served : Bool)
  /-- A process prints. -/
  | output (text : List Byte)
  /-- A process calls `schedule` with nobody in the ready queue. -/
  | shellAgain

theorem readLoop_nul_free (inputLine : Bytes) (maxLength : Int) (fuel i : Nat) :
    ∀ c ∈ Keyboard.readLoop inputLine maxLength fuel i, c ≠ 0 := by
  induction fuel generalizing i with
  | zero => exact fun c member => absurd member List.not_mem_nil
  | succ fuel ih =>
      rw [Keyboard.readLoop]
      split
      · rename_i more
        exact List.forall_mem_cons.mpr ⟨more.1, ih (i + 1)⟩
      · exact fun c member => absurd member List.not_mem_nil

theorem readLoop_length_le (inputLine : Bytes) (maxLength : Int) (fuel i : Nat) :
    (Keyboard.readLoop inputLine maxLength fuel i).length ≤ (maxLength - 1).toNat - i := by
  induction fuel generalizing i with
  | zero => exact Nat.zero_le _
  | succ fuel ih =>
      rw [Keyboard.readLoop]
      split
      · rename_i more
        have later := ih (i + 1)
        rw [List.length_cons]
        omega
      · exact Nat.zero_le _

/-- What `read_line` stores in the array `input`. -/
def lineIn (keyboard : KeyboardState) : Text where
  chars := (Keyboard.readLine keyboard maxInputLength).1
  nul_free := readLoop_nul_free _ _ _ _
  short := by
    have bound := readLoop_length_le keyboard.inputLine maxInputLength bufferSize 0
    unfold maxInputLength at bound ⊢
    exact Nat.lt_of_le_of_lt bound (by decide)

namespace Terminal

def interrupt (terminal : Terminal) (scancode : Byte) : Terminal :=
  let (keyboard, echo) := keyboardHandler terminal.keyboard scancode
  { terminal with keyboard := keyboard, screen := terminal.screen.printToScreen echo }

def enter (terminal : Terminal) (stage : Stage) : Terminal :=
  { terminal with screen := terminal.screen.printToScreen stage.prints, stage := stage }

/-- `cli_loop` from the return of `read_line` to the next prompt, or to where it leads. -/
def round (terminal : Terminal) (loop : Loop) (buffer : Bytes) (served : Bool) : Terminal :=
  let outcome := cliLine terminal.disk ⟨lineIn terminal.keyboard, buffer⟩
  let answered : Terminal :=
    { keyboard := (Keyboard.readLine terminal.keyboard maxInputLength).2
      disk := outcome.disk
      screen := terminal.screen.printToScreen outcome.printed
      stage := terminal.stage }
  answered.enter (loop.after served outcome.request)

def step (terminal : Terminal) : TerminalAction → Option Terminal
  | .interrupt scancode =>
      if terminal.stage = .halted then none else some (terminal.interrupt scancode)
  | .round buffer served =>
      match terminal.stage with
      | .reading loop =>
          if terminal.keyboard.inputReady then some (terminal.round loop buffer served) else none
      | _ => none
  | .output text =>
      if terminal.stage = .process then
        some { terminal with screen := terminal.screen.printToScreen text }
      else none
  | .shellAgain =>
      if terminal.stage = .process then some (terminal.enter (.reading Loop.again)) else none

/-- The terminal when `cli_loop` is called: the first prompt is printed. -/
def boot (disk : Disk) (screen : Vga) : Terminal where
  keyboard := bootKeyboard
  disk := formatDisk disk
  screen := screen.printToScreen prompt
  stage := .reading Loop.boot

end Terminal

def terminalSystem : System Terminal TerminalAction where
  initial terminal := ∃ disk screen, terminal = Terminal.boot disk screen
  step := Terminal.step

/-! ## The view from the chair -/

def Editor.echo (editor : Editor) : Key → List Byte
  | .enter => [10]
  | .backspace => if editor.typed = [] then [] else [8, 32, 8]
  | .char c => if editor.typed.length < 255 then [c] else []
  | .shift _ | .capsLock | .nothing => []

/-- A key is pressed and released, with Shift held if it must be. -/
def strokes (c : Byte) : List Byte :=
  if c ∈ scancodeToAscii then
    let scancode := UInt8.ofNat (scancodeToAscii.idxOf c)
    [scancode, scancode + 0x80]
  else
    let scancode := UInt8.ofNat (scancodeToAsciiShift.idxOf c)
    [0x2A, scancode, scancode + 0x80, 0xAA]

structure Desk where
  editor : Editor
  /-- The line that was entered and not read. -/
  pending : Option (List Byte)
  catalog : Catalog
  stage : Stage

namespace Desk

def start : Desk := ⟨Editor.start, none, Catalog.empty, .reading Loop.boot⟩

def press (desk : Desk) (scancode : Byte) : List Byte × Desk :=
  let (editor, entered) := desk.editor.scan scancode
  (Editor.echo desk.editor (decode desk.editor.shift desk.editor.caps scancode),
    { desk with editor := editor, pending := entered.or desk.pending })

/-- The command in a line: `read_line` cuts it. -/
def commandOf (line : List Byte) : Command := parse (line.take (maxInputLength - 1))

def answer (desk : Desk) (loop : Loop) (served : Bool) (line : List Byte) : List Byte × Desk :=
  let response := (commandOf line).interpret desk.catalog
  let stage := loop.after served response.request
  (response.printed ++ stage.prints,
    { desk with pending := none, catalog := response.catalog, stage := stage })

def step (desk : Desk) : TerminalAction → Option (List Byte × Desk)
  | .interrupt scancode => if desk.stage = .halted then none else some (desk.press scancode)
  | .round _ served =>
      match desk.stage with
      | .reading loop => desk.pending.map (desk.answer loop served)
      | _ => none
  | .output text => if desk.stage = .process then some (text, desk) else none
  | .shellAgain =>
      if desk.stage = .process then some (prompt, { desk with stage := .reading Loop.again })
      else none

def play (desk : Desk) : List TerminalAction → Option (List Byte × Desk)
  | [] => some ([], desk)
  | action :: rest =>
      (desk.step action).bind fun now =>
        (now.2.play rest).map fun later => (now.1 ++ later.1, later.2)

def ReadsShort (desk : Desk) : TerminalAction → Prop
  | .round _ _ => ∀ line ∈ desk.pending, (commandOf line).ReadsShort desk.catalog
  | _ => True

def AllShort (desk : Desk) : List TerminalAction → Prop
  | [] => True
  | action :: rest =>
      desk.ReadsShort action ∧ ∀ now ∈ desk.step action, now.2.AllShort rest

instance (desk : Desk) (action : TerminalAction) : Decidable (desk.ReadsShort action) :=
  match action with
  | .round _ _ => inferInstanceAs (Decidable (∀ line ∈ desk.pending, _))
  | .interrupt _ | .output _ | .shellAgain => .isTrue trivial

def decideAllShort (desk : Desk) : (actions : List TerminalAction) → Decidable (desk.AllShort actions)
  | [] => .isTrue trivial
  | action :: rest =>
      have : DecidablePred fun now : List Byte × Desk => now.2.AllShort rest :=
        fun now => decideAllShort now.2 rest
      inferInstanceAs (Decidable (_ ∧ ∀ now ∈ desk.step action, _))

instance (desk : Desk) (actions : List TerminalAction) : Decidable (desk.AllShort actions) :=
  decideAllShort desk actions

end Desk

/-! ## One step -/

theorem handler_echo {keyboard : KeyboardState} {editor : Editor} (edits : Edits keyboard editor)
    (scancode : Byte) : (keyboardHandler keyboard scancode).2 =
      Editor.echo editor (decode editor.shift editor.caps scancode) := by
  rw [keyboardHandler, decode, edits.shift, edits.caps]
  split
  · rfl
  split
  · rfl
  split
  · rfl
  split
  · dsimp only
    rw [pressCharacter_ofCode, Key.ofCode]
    split
    · rfl
    split
    · rfl
    rename_i noEnter
    split
    · rw [Key.character, pressCharacter, pressKey_backspace, edits.index, Editor.echo]
      by_cases empty : editor.typed = []
      · rw [if_pos empty, empty]
        rfl
      · rw [if_neg empty, if_pos (List.length_pos_iff.mpr empty)]
    · rename_i noBackspace
      rw [Key.character, pressCharacter, Editor.echo]
      by_cases room : editor.typed.length < 255
      · rw [pressKey_char noEnter noBackspace (edits.index ▸ room), if_pos room]
      · have full : ¬ keyboard.bufferIndex < bufferSize - 1 := by
          rw [edits.index]
          exact room
        rw [KeyboardState.pressKey, if_neg noEnter, if_neg noBackspace, if_neg full, if_neg room]
  · rfl

structure Sees (terminal : Terminal) (desk : Desk) : Prop where
  edits : Edits terminal.keyboard desk.editor
  holds : Holds terminal.keyboard desk.pending
  invariant : Invariant terminal.disk
  clean : Clean desk.catalog
  catalog : catalogOf terminal.disk = desk.catalog
  stage : terminal.stage = desk.stage

theorem Sees.boot (disk : Disk) (screen : Vga) : Sees (Terminal.boot disk screen) Desk.start where
  edits := edits_boot
  holds := ⟨rfl, fun _ clash => by cases clash⟩
  invariant := formatDisk_invariant disk
  clean := clean_empty
  catalog := catalogOf_format disk
  stage := rfl

theorem lineIn_chars {keyboard : KeyboardState} {pending : Option (List Byte)} {line : List Byte}
    (holds : Holds keyboard pending) (waits : pending = some line) :
    (lineIn keyboard).chars = line.take (maxInputLength - 1) := by
  have held := holds.line line waits
  have left : line.length ≤ 0 + bufferSize := by
    have fits := held.fits
    omega
  exact held.readLoop maxInputLength left (Nat.zero_le _)

section Steps

variable {terminal : Terminal} {desk : Desk}

theorem Sees.interrupt (sees : Sees terminal desk) (scancode : Byte) :
    Sees (terminal.interrupt scancode) (desk.press scancode).2 ∧
      (terminal.interrupt scancode).screen =
        terminal.screen.printToScreen (desk.press scancode).1 := by
  obtain ⟨edits, holds⟩ := keyboardHandler_edits sees.edits sees.holds scancode
  refine ⟨⟨edits, holds, sees.invariant, sees.clean, sees.catalog, sees.stage⟩, ?_⟩
  exact congrArg terminal.screen.printToScreen (handler_echo sees.edits scancode)

theorem Sees.round (sees : Sees terminal desk) (loop : Loop) (buffer : Bytes) (served : Bool)
    {line : List Byte} (waits : desk.pending = some line)
    (short : (Desk.commandOf line).ReadsShort desk.catalog) :
    Sees (terminal.round loop buffer served) (desk.answer loop served line).2 ∧
      (terminal.round loop buffer served).screen =
        terminal.screen.printToScreen (desk.answer loop served line).1 := by
  have chars := lineIn_chars sees.holds waits
  have command : parse (lineIn terminal.keyboard).chars = Desk.commandOf line := by
    rw [chars, Desk.commandOf]
  have clean := sees.clean
  have entry := Entry.proper ⟨lineIn terminal.keyboard, buffer⟩
  rw [← sees.catalog] at short clean
  have agrees := cliLine_agrees sees.invariant clean ⟨lineIn terminal.keyboard, buffer⟩
    (command ▸ short)
  have clean' := clean.interpret entry
  simp only [command, sees.catalog] at agrees clean'
  constructor
  · refine ⟨?_, ⟨rfl, fun _ clash => by cases clash⟩,
      cliLine_invariant sees.invariant ⟨lineIn terminal.keyboard, buffer⟩, clean',
      agrees.catalog, congrArg (loop.after served) agrees.request⟩
    have edits := sees.edits
    exact ⟨edits.shift, edits.caps, edits.index, edits.fits, edits.bytes, edits.nonzero⟩
  · rw [Terminal.round, Terminal.enter]
    dsimp only
    rw [agrees.request, agrees.printed, Desk.answer, Vga.print_append]

theorem Sees.enter (sees : Sees terminal desk) (stage : Stage) :
    Sees (terminal.enter stage) { desk with stage := stage } :=
  ⟨sees.edits, sees.holds, sees.invariant, sees.clean, sees.catalog, rfl⟩

/-- A step of the terminal is a step of the desk, and the screen shows what the desk shows. -/
theorem Sees.step (sees : Sees terminal desk) {action : TerminalAction} {next : Terminal}
    (taken : terminal.step action = some next) (short : desk.ReadsShort action) :
    ∃ shown desk', desk.step action = some (shown, desk') ∧ Sees next desk' ∧
      next.screen = terminal.screen.printToScreen shown := by
  cases action with
  | interrupt scancode =>
      obtain ⟨awake, same⟩ := Option.ite_none_left_eq_some.mp taken
      rw [← Option.some.inj same]
      rw [sees.stage] at awake
      exact ⟨_, _, if_neg awake, sees.interrupt scancode⟩
  | round buffer served =>
      rw [Terminal.step, sees.stage] at taken
      cases stage : desk.stage with
      | process | spinning | halted =>
          rw [stage] at taken
          cases taken
      | reading loop =>
          rw [stage] at taken
          obtain ⟨ready, same⟩ := Option.ite_none_right_eq_some.mp taken
          rw [sees.holds.ready] at ready
          obtain ⟨line, waits⟩ := Option.isSome_iff_exists.mp ready
          rw [← Option.some.inj same]
          refine ⟨_, _, ?_, sees.round loop buffer served waits (short line waits)⟩
          rw [Desk.step, stage, waits]
          rfl
  | output text =>
      obtain ⟨prints, same⟩ := Option.ite_none_right_eq_some.mp taken
      rw [← Option.some.inj same]
      rw [sees.stage] at prints
      exact ⟨_, _, if_pos prints, ⟨sees.edits, sees.holds, sees.invariant, sees.clean,
        sees.catalog, sees.stage⟩, rfl⟩
  | shellAgain =>
      obtain ⟨leaves, same⟩ := Option.ite_none_right_eq_some.mp taken
      rw [← Option.some.inj same]
      rw [sees.stage] at leaves
      refine ⟨_, _, if_pos leaves, sees.enter (.reading Loop.again), ?_⟩
      rw [Terminal.enter, Stage.prints]

theorem Sees.enabled (sees : Sees terminal desk) {action : TerminalAction}
    (taken : (desk.step action).isSome) : (terminal.step action).isSome := by
  obtain ⟨now, taken⟩ := Option.isSome_iff_exists.mp taken
  cases action with
  | interrupt scancode =>
      obtain ⟨awake, _⟩ := Option.ite_none_left_eq_some.mp taken
      rw [Terminal.step, sees.stage, if_neg awake]
      rfl
  | round buffer served =>
      rw [Desk.step] at taken
      rw [Terminal.step, sees.stage]
      cases stage : desk.stage with
      | process | spinning | halted =>
          rw [stage] at taken
          cases taken
      | reading loop =>
          rw [stage] at taken
          obtain ⟨line, waits, _⟩ := Option.map_eq_some_iff.mp taken
          dsimp only
          rw [if_pos (by rw [sees.holds.ready, waits, Option.isSome_some])]
          rfl
  | output text | shellAgain =>
      obtain ⟨has, _⟩ := Option.ite_none_right_eq_some.mp taken
      rw [Terminal.step, sees.stage, if_pos has]
      rfl

end Steps

/-! ## Runs -/

structure Played (first last : Terminal) (desk : Desk) (actions : List TerminalAction)
    (shown : List Byte) (after : Desk) : Prop where
  played : desk.play actions = some (shown, after)
  screen : last.screen = first.screen.printToScreen shown
  sees : Sees last after

theorem Sees.run {first last : Terminal} {trace : List (Transition Terminal TerminalAction)}
    (run : terminalSystem.Trace first trace last) {desk : Desk} (sees : Sees first desk)
    (short : desk.AllShort (trace.map Transition.action)) :
    ∃ shown after, Played first last desk (trace.map Transition.action) shown after := by
  induction run generalizing desk with
  | nil terminal => exact ⟨[], desk, rfl, rfl, sees⟩
  | @cons first middle last action rest taken _ ih =>
      obtain ⟨here, later⟩ := short
      obtain ⟨shown, desk', stepped, sees', screen⟩ := sees.step taken here
      obtain ⟨more, after, played⟩ := ih sees' (later (shown, desk') stepped)
      refine ⟨shown ++ more, after, ?_, ?_, played.sees⟩
      · rw [List.map_cons, Desk.play, stepped, Option.bind_some, played.played, Option.map_some]
      · rw [played.screen, screen, Vga.print_append]

/-- In every run of interrupts, rounds of the loop and processes in which all reads are short,
the screen shows what a line editor over a catalog of files shows, and the disk holds the files
of this catalog. -/
theorem terminal_refines_desk {first last : Terminal}
    {trace : List (Transition Terminal TerminalAction)} (initial : terminalSystem.initial first)
    (run : terminalSystem.Trace first trace last)
    (short : Desk.start.AllShort (trace.map Transition.action)) :
    ∃ shown desk, Desk.start.play (trace.map Transition.action) = some (shown, desk) ∧
      last.screen = first.screen.printToScreen shown ∧ catalogOf last.disk = desk.catalog ∧
      last.stage = desk.stage := by
  obtain ⟨disk, screen, rfl⟩ := initial
  obtain ⟨shown, desk, played⟩ := (Sees.boot disk screen).run run short
  exact ⟨shown, desk, played.played, played.screen, played.sees.catalog, played.sees.stage⟩

/-- The answer to an empty line comes while the next line is typed; with nobody ready `process
start` leads to the next prompt, and the shell is left while somebody prints. -/
def typedAhead : List TerminalAction :=
  [.interrupt 0x1C, .interrupt 0x1E, .round noBytes true, .interrupt 0x0E] ++
    ((message "process start").flatMap strokes ++ [0x1C]).map .interrupt ++
    .round noBytes true :: ((message "process dummy1").flatMap strokes ++ [0x1C]).map .interrupt ++
    .round noBytes true :: ((message "process start").flatMap strokes ++ [0x1C]).map .interrupt ++
    [.round noBytes true, .interrupt 0x1E, .output (message "Dummy"), .shellAgain]

theorem terminal_refines_desk_ahead : ∃ trace last,
    terminalSystem.record (Terminal.boot zeroDisk bootScreen) typedAhead = some (trace, last) ∧
      ∃ shown desk, Desk.start.play (trace.map Transition.action) = some (shown, desk) ∧
        last.screen = (Terminal.boot zeroDisk bootScreen).screen.printToScreen shown ∧
        catalogOf last.disk = desk.catalog ∧ last.stage = desk.stage := by
  have runs : (terminalSystem.record (Terminal.boot zeroDisk bootScreen) typedAhead).isSome := by
    decide +kernel
  have short : Desk.start.AllShort typedAhead := by decide +kernel
  obtain ⟨⟨trace, last⟩, recorded⟩ := Option.isSome_iff_exists.mp runs
  refine ⟨trace, last, recorded, terminal_refines_desk ⟨zeroDisk, bootScreen, rfl⟩
    (System.trace_of_record recorded) ?_⟩
  rwa [System.actions_of_record recorded]

/-! ## Typing -/

deriving instance DecidableEq for Key

def Typeable (c : Byte) : Prop :=
  c ∉ [0, 8, 10] ∧ (c ∈ scancodeToAscii ∨ c ∈ scancodeToAsciiShift)

instance (c : Byte) : Decidable (Typeable c) := inferInstanceAs (Decidable (_ ∧ _))

/-- A line that is typed; `buffer` and `served` are for the round that answers it. -/
structure Typed where
  line : List Byte
  buffer : Bytes
  served : Bool

def Typed.command (typed : Typed) : Command × Bool := (parse typed.line, typed.served)

def Typed.keys (typed : Typed) : List TerminalAction :=
  (typed.line.flatMap strokes ++ [0x1C, 0x9C]).map .interrupt

/-- Where the round that answers the line leads. -/
def Typed.leads (typed : Typed) (loop : Loop) : Stage :=
  loop.after typed.served (parse typed.line).request

theorem unshifted_keys : ∀ c ∈ scancodeToAscii, c ∉ [0, 8, 10] →
    decode false false (UInt8.ofNat (scancodeToAscii.idxOf c)) = .char c ∧
      decode false false (UInt8.ofNat (scancodeToAscii.idxOf c) + 0x80) = .nothing := by
  decide +kernel

theorem shifted_keys : ∀ c ∈ scancodeToAsciiShift, c ∉ [0, 8, 10] →
    decode true false (UInt8.ofNat (scancodeToAsciiShift.idxOf c)) = .char c ∧
      decode true false (UInt8.ofNat (scancodeToAsciiShift.idxOf c) + 0x80) = .nothing := by
  decide +kernel

namespace Desk

theorem play_append (desk : Desk) (first second : List TerminalAction) :
    desk.play (first ++ second) = (desk.play first).bind fun now =>
      (now.2.play second).map fun later => (now.1 ++ later.1, later.2) := by
  induction first generalizing desk with
  | nil =>
      rw [List.nil_append, play, Option.bind_some]
      exact Option.map_id'.symm
  | cons action rest ih =>
      rw [List.cons_append, play, play]
      cases desk.step action with
      | none => rfl
      | some now =>
          rw [Option.bind_some, Option.bind_some, ih]
          cases now.2.play rest with
          | none => rfl
          | some middle =>
              rw [Option.bind_some, Option.map_some, Option.bind_some, Option.map_map]
              simp only [Function.comp_def, List.append_assoc]

theorem play_cons_of {desk next last : Desk} {action : TerminalAction}
    {rest : List TerminalAction} {shown later : List Byte}
    (stepped : desk.step action = some (shown, next)) (played : next.play rest = some (later, last)) :
    desk.play (action :: rest) = some (shown ++ later, last) := by
  rw [play, stepped, Option.bind_some, played, Option.map_some]

theorem play_append_of {desk middle last : Desk} {first second : List TerminalAction}
    {shown later : List Byte} (head : desk.play first = some (shown, middle))
    (tail : middle.play second = some (later, last)) :
    desk.play (first ++ second) = some (shown ++ later, last) := by
  rw [play_append, head, Option.bind_some, tail, Option.map_some]

theorem play_interrupt {desk : Desk} (awake : desk.stage ≠ .halted) (scancode : Byte)
    (rest : List TerminalAction) : desk.play (.interrupt scancode :: rest) =
      ((desk.press scancode).2.play rest).map fun later =>
        ((desk.press scancode).1 ++ later.1, later.2) := by
  rw [play, step, if_neg awake, Option.bind_some]

def typing (catalog : Catalog) (stage : Stage) (pending : Option (List Byte)) (shift : Bool)
    (typed : List Byte) : Desk := ⟨⟨shift, false, typed⟩, pending, catalog, stage⟩

section Typing

variable {catalog : Catalog} {stage : Stage} {pending : Option (List Byte)} {shift : Bool}
  {typed : List Byte} {scancode : Byte}

theorem press_char {c : Byte} (key : decode shift false scancode = .char c)
    (room : typed.length < 255) : (typing catalog stage pending shift typed).press scancode =
      ([c], typing catalog stage pending shift (typed ++ [c])) := by
  rw [press, Editor.scan, typing]
  dsimp only
  rw [key, Editor.press, if_pos room, Editor.echo, if_pos room]
  rfl

theorem press_nothing (key : decode shift false scancode = .nothing) :
    (typing catalog stage pending shift typed).press scancode =
      ([], typing catalog stage pending shift typed) := by
  rw [press, Editor.scan, typing]
  dsimp only
  rw [key]
  rfl

theorem press_shift {pressed : Bool} (key : decode shift false scancode = .shift pressed) :
    (typing catalog stage pending shift typed).press scancode =
      ([], typing catalog stage pending pressed typed) := by
  rw [press, Editor.scan, typing]
  dsimp only
  rw [key]
  rfl

theorem press_enter (key : decode shift false scancode = .enter) :
    (typing catalog stage pending shift typed).press scancode =
      ([10], typing catalog stage (some typed) shift []) := by
  rw [press, Editor.scan, typing]
  dsimp only
  rw [key]
  rfl

theorem play_strokes (awake : stage ≠ .halted) {c : Byte} (typeable : Typeable c)
    (room : typed.length < 255) :
    (typing catalog stage pending false typed).play ((strokes c).map .interrupt) =
      some ([c], typing catalog stage pending false (typed ++ [c])) := by
  obtain ⟨plain, key⟩ := typeable
  rw [strokes]
  split
  · rename_i unshifted
    obtain ⟨press, release⟩ := unshifted_keys c unshifted plain
    rw [List.map_cons, List.map_cons, List.map_nil, play_interrupt awake, press_char press room,
      play_interrupt awake, press_nothing release]
    rfl
  · rename_i shifted
    obtain ⟨press, release⟩ := shifted_keys c (key.resolve_left shifted) plain
    have down : decode false false 0x2A = .shift true := rfl
    have up : decode true false 0xAA = .shift false := rfl
    rw [List.map_cons, List.map_cons, List.map_cons, List.map_cons, List.map_nil,
      play_interrupt awake, press_shift down, play_interrupt awake, press_char press room,
      play_interrupt awake, press_nothing release, play_interrupt awake, press_shift up]
    rfl

theorem play_typed (awake : stage ≠ .halted) {line : List Byte}
    (typeable : ∀ c ∈ line, Typeable c) (room : typed.length + line.length ≤ 255) :
    (typing catalog stage pending false typed).play ((line.flatMap strokes).map .interrupt) =
      some (line, typing catalog stage pending false (typed ++ line)) := by
  induction line generalizing typed with
  | nil =>
      rw [List.append_nil]
      rfl
  | cons c rest ih =>
      rw [List.length_cons] at room
      have later : (typed ++ [c]).length + rest.length ≤ 255 := by
        rw [List.length_append, List.length_singleton]
        omega
      have first : (typing catalog stage pending false typed).play _ = _ :=
        play_strokes awake (typeable c List.mem_cons_self) (by omega)
      have more := ih (fun d member => typeable d (List.mem_cons_of_mem c member)) later
      rw [List.append_assoc] at more
      rw [List.flatMap_cons, List.map_append]
      exact play_append_of first more

theorem commandOf_eq {line : List Byte} (short : line.length < maxInputLength) :
    commandOf line = parse line := by
  rw [commandOf, List.take_of_length_le (Nat.le_sub_one_of_lt short)]

theorem allShort_interrupts {desk : Desk} {scancodes : List Byte} {rest : List TerminalAction}
    (later : ∀ shown next, desk.play (scancodes.map .interrupt) = some (shown, next) →
      next.AllShort rest) : desk.AllShort (scancodes.map .interrupt ++ rest) := by
  induction scancodes generalizing desk with
  | nil => exact later [] desk rfl
  | cons scancode more ih =>
      refine ⟨trivial, ?_⟩
      intro now stepped
      apply ih
      intro shown' next' played
      apply later (now.1 ++ shown')
      rw [List.map_cons, play, stepped, Option.bind_some, played, Option.map_some]

theorem play_keys (catalog : Catalog) (pending : Option (List Byte)) (awake : stage ≠ .halted)
    {line : Typed}
    (typeable : ∀ c ∈ line.line, Typeable c) (short : line.line.length < maxInputLength) :
    (typing catalog stage pending false []).play line.keys =
      some (line.line ++ [10], typing catalog stage (some line.line) false []) := by
  have enter : decode false false 0x1C = .enter := rfl
  have release : decode false false 0x9C = .nothing := rfl
  have room : ([] : List Byte).length + line.line.length ≤ 255 := by
    unfold maxInputLength at short
    rw [List.length_nil]
    omega
  rw [Typed.keys, List.map_append]
  apply play_append_of (play_typed awake typeable room)
  rw [List.map_cons, List.map_cons, List.map_nil, play_interrupt awake, List.nil_append,
    press_enter enter, play_interrupt awake, press_nothing release]
  rfl

theorem step_round (catalog : Catalog) (loop : Loop) (line : Typed)
    (short : line.line.length < maxInputLength) :
    (typing catalog (.reading loop) (some line.line) false []).step
        (.round line.buffer line.served) =
      some (((parse line.line).interpret catalog).printed ++ (line.leads loop).prints,
        typing ((parse line.line).interpret catalog).catalog (line.leads loop) none false []) := by
  have same := interpret_request catalog (parse line.line)
  rw [Typed.leads, ← same, ← commandOf_eq short]
  rfl

/-- The actions can be taken, the files that they read are short, and the desk shows this. -/
structure Plays (desk : Desk) (actions : List TerminalAction) (shown : List Byte) : Prop where
  played : ∃ after, desk.play actions = some (shown, after)
  short : desk.AllShort actions

theorem Plays.keys (awake : stage ≠ .halted) {line : Typed}
    (typeable : ∀ c ∈ line.line, Typeable c) (short : line.line.length < maxInputLength)
    {rest : List TerminalAction} {shown : List Byte}
    (plays : (typing catalog stage (some line.line) false []).Plays rest shown) :
    (typing catalog stage pending false []).Plays (line.keys ++ rest)
      (line.line ++ [10] ++ shown) := by
  have keys := play_keys catalog pending awake typeable short
  constructor
  · obtain ⟨after, played⟩ := plays.played
    exact ⟨after, play_append_of keys played⟩
  · apply allShort_interrupts
    intro shown' next played
    rw [← Typed.keys, keys] at played
    cases played
    exact plays.short

theorem Plays.round {loop : Loop} {line : Typed} (length : line.line.length < maxInputLength)
    (short : (parse line.line).ReadsShort catalog) {rest : List TerminalAction}
    {shown : List Byte}
    (plays : (typing ((parse line.line).interpret catalog).catalog (line.leads loop) none false
      []).Plays rest shown) :
    (typing catalog (.reading loop) (some line.line) false []).Plays
      (.round line.buffer line.served :: rest)
      (((parse line.line).interpret catalog).printed ++ (line.leads loop).prints ++ shown) := by
  have answered := step_round catalog loop line length
  constructor
  · obtain ⟨after, played⟩ := plays.played
    exact ⟨after, play_cons_of answered played⟩
  · constructor
    · rintro line' ⟨⟩
      rw [commandOf_eq length]
      exact short
    · intro now stepped
      rw [answered] at stepped
      cases stepped
      exact plays.short

end Typing

end Desk

end ApnaOS.Shell
