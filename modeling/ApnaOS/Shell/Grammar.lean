import ApnaOS.Lib.Splitter
import ApnaOS.Shell.CliLoop
import Mathlib.Data.List.Find

/-!
# The language of the shell

A line is read as words between blanks; a write and an append take the rest of the line as it
stands.  `cli_loop` does what the command asks that these words make.
-/

set_option autoImplicit false

namespace ApnaOS.Shell

open ApnaOS.Lib ApnaOS.FileSystem
open ApnaOS.StringOps (Byte Bytes)
open ApnaOS.Keyboard (code)
open Function (update)

abbrev Word := List Byte

def isBlank (c : Byte) : Bool := blanks.contains c

def isNewline (c : Byte) : Bool := newline.contains c

def words (text : List Byte) : List Word := runs isBlank text

def behindWord (text : List Byte) : List Byte :=
  ((text.dropWhile isBlank).dropWhile fun c => !isBlank c).tail

def lineData (text : List Byte) : Option Word := (runs isNewline text).head?

inductive Command where
  | blank
  | exit
  | start
  | queue (entryPoint : EntryPoint) (priority : Int)
  | make (name : Word)
  | read (name : Word)
  | write (name data : Word)
  | append (name data : Word)
  | remove (name : Word)
  | chmod (name : Word) (permissions : UInt16)
  | list
  | refused (complaint : List Byte)

def parsePriority : Option Word → Int
  | none => 1
  | some word => intOf word

/-- The words behind `process`. -/
def parseProcess : List Word → Command
  | [] => .refused processUsage
  | name :: more =>
      if name = message "start" then .start
      else if name = message "syscall" ∧ more.head? = some (message "test") then
        .queue .syscallTest (parsePriority more.tail.head?)
      else if name = message "process" ∧ more.head? = some (message "test") then
        .queue .processTest (parsePriority more.tail.head?)
      else
        match processCommands.find? fun command => decide (name = command.name) with
        | some command => .queue command.func (parsePriority more.head?)
        | none => .refused unknownProcess

def parseName (texts : Texts) (command : Word → Command) : List Word → Command
  | [] => .refused texts.usage
  | name :: _ => command name

def parseData (texts : Texts) (command : Word → Word → Command) (text : List Byte) : Command :=
  match (words text).head?, lineData (behindWord text) with
  | some name, some data => command name data
  | _, _ => .refused texts.usage

def parseChmod : List Word → Command
  | name :: permissions :: _ => .chmod name (atoi permissions).toUInt16
  | _ => .refused chmodTexts.usage

/-- The text behind `file`. -/
def parseFile (text : List Byte) : Command :=
  match words text with
  | [] => .refused fileUsage
  | operation :: more =>
      if operation = message "make" then parseName makeTexts .make more
      else if operation = message "read" then parseName readTexts .read more
      else if operation = message "write" then parseData writeTexts .write (behindWord text)
      else if operation = message "append" then parseData appendTexts .append (behindWord text)
      else if operation = message "rm" then parseName rmTexts .remove more
      else if operation = message "ls" then .list
      else if operation = message "chmod" then parseChmod more
      else .refused unknownOperation

def parse (line : List Byte) : Command :=
  match words line with
  | [] => .blank
  | first :: more =>
      if first = message "exit" then .exit
      else if first = message "process" then parseProcess more
      else if first = message "file" then parseFile (behindWord line)
      else if first = message "ls" then .list
      else .refused unknownCommand

/-! ## Tokens are words -/

theorem strcmp_eq_zero_iff {s1 s2 : List Byte} (proper1 : ∀ c ∈ s1, c ≠ 0)
    (proper2 : ∀ c ∈ s2, c ≠ 0) : strcmp s1 s2 = 0 ↔ s1 = s2 := by
  induction s1 generalizing s2 with
  | nil =>
      cases s2 with
      | nil => simp [strcmp]
      | cons c2 rest2 =>
          have positive : c2.toNat ≠ 0 := fun zero =>
            proper2 c2 List.mem_cons_self (UInt8.toNat_inj.mp zero)
          simp only [strcmp, List.nil_eq, reduceCtorEq, iff_false]
          omega
  | cons c1 rest1 ih =>
      cases s2 with
      | nil =>
          have positive : c1.toNat ≠ 0 := fun zero =>
            proper1 c1 List.mem_cons_self (UInt8.toNat_inj.mp zero)
          simp only [strcmp, reduceCtorEq, iff_false]
          omega
      | cons c2 rest2 =>
          rw [strcmp, List.cons.injEq]
          by_cases same : c1 = c2
          · rw [if_pos same, and_iff_right same]
            apply ih
            · exact fun c member => proper1 c (List.mem_cons_of_mem c1 member)
            · exact fun c member => proper2 c (List.mem_cons_of_mem c2 member)
          · have different : c1.toNat ≠ c2.toNat := fun equal => same (UInt8.toNat_inj.mp equal)
            rw [if_neg same, iff_false_right (fun both => same both.1)]
            omega

theorem Text.strcmp_iff (token : Text) {keyword : List Byte}
    (proper : ∀ c ∈ keyword, c ≠ 0) : strcmp token.chars keyword = 0 ↔ token.chars = keyword :=
  strcmp_eq_zero_iff token.nul_free proper

theorem strtok_runs (delim : List Byte) (text : Text) :
    (strtok delim text).1.map Text.chars = (runs (fun c => delim.contains c) text.chars).head? ∧
      (strtok delim text).2.chars = ((text.chars.dropWhile fun c => delim.contains c).dropWhile
        fun c => !delim.contains c).tail := by
  rw [strtok, ← runs_dropWhile]
  by_cases nothing : (text.skip delim).chars = []
  · have ended : text.chars.dropWhile (fun c => delim.contains c) = [] := nothing
    rw [if_pos nothing, ended, nothing]
    exact ⟨rfl, rfl⟩
  · have first := List.head_dropWhile_not (fun c => delim.contains c) nothing
    have cut : runs (fun c => delim.contains c) (text.chars.dropWhile fun c => delim.contains c) =
        _ := runs_of_head nothing first
    rw [if_neg nothing, cut]
    exact ⟨rfl, rfl⟩

theorem words_behindWord (text : List Byte) : words (behindWord text) = (words text).tail :=
  (tail_runs text).symm

theorem words_eq_nil {text rest : Text} (called : strtok blanks text = (none, rest)) :
    words text.chars = [] := by
  have token := (strtok_runs blanks text).1
  rw [called] at token
  exact List.head?_eq_none_iff.mp token.symm

theorem words_eq_cons {text rest token : Text} (called : strtok blanks text = (some token, rest)) :
    words text.chars = token.chars :: words rest.chars ∧ behindWord text.chars = rest.chars := by
  obtain ⟨first, behind⟩ := strtok_runs blanks text
  rw [called] at first behind
  have behind' : behindWord text.chars = rest.chars := behind.symm
  refine ⟨?_, behind'⟩
  rw [← behind', words_behindWord]
  exact (List.cons_head?_tail first.symm).symm

/-! ## Commands -/

def queueing : EntryPoint → List Byte
  | .syscallTest => queueingSyscallTest
  | .processTest => queueingProcessTest
  | _ => queueingProcess

def answered (answer : List Byte × Disk) : Outcome := ⟨answer.1, answer.2, .nothing⟩

/-- What a command does on a disk; `buffer` is what the array of the read branch holds. -/
def Command.Does (disk : Disk) (buffer : Bytes) : Command → Outcome → Prop
  | .blank, outcome => outcome = ⟨[], disk, .nothing⟩
  | .exit, outcome => outcome = ⟨exiting, disk, .exit⟩
  | .start, outcome => outcome = ⟨starting, disk, .schedule⟩
  | .queue entryPoint priority, outcome =>
      outcome = ⟨queueing entryPoint, disk, .createProcess entryPoint priority⟩
  | .make name, outcome => ∃ filename : FileName, filename.chars = name ∧
      outcome = answered (makeTexts.report (createFile disk filename))
  | .read name, outcome => ∃ filename : FileName, filename.chars = name ∧
      outcome = answered (readAnswer disk buffer filename)
  | .write name data, outcome => ∃ filename : FileName, filename.chars = name ∧
      outcome = answered
        (writeTexts.report (writeFile disk filename (fun i => data.getD i 0) data.length))
  | .append name data, outcome => ∃ filename : FileName, filename.chars = name ∧
      outcome = answered
        (appendTexts.report (appendToFile disk filename (fun i => data.getD i 0) data.length))
  | .remove name, outcome => ∃ filename : FileName, filename.chars = name ∧
      outcome = answered (rmTexts.report (deleteFile disk filename))
  | .chmod name permissions, outcome => ∃ filename : FileName, filename.chars = name ∧
      outcome = answered (chmodTexts.report (chmodFile disk filename permissions))
  | .list, outcome => outcome = answered (listFiles disk, disk)
  | .refused complaint, outcome => outcome = ⟨complaint, disk, .nothing⟩

theorem nameBranch_does {disk : Disk} {buffer : Bytes} {command : Word → Command}
    {answer : FileName → List Byte × Disk} (texts : Texts)
    (does : ∀ filename : FileName,
      (command filename.chars).Does disk buffer (answered (answer filename))) (rest : Text) :
    (parseName texts command (words rest.chars)).Does disk buffer
      (answered (nameBranch texts answer disk rest)) := by
  rw [nameBranch]
  cases called : strtok blanks rest with
  | mk token after =>
      cases token with
      | none =>
          rw [words_eq_nil called]
          rfl
      | some filename =>
          rw [(words_eq_cons called).1]
          exact does filename.fileName

theorem dataBranch_does {disk : Disk} {buffer : Bytes} {command : Word → Word → Command}
    {call : FileName → Bytes → Nat → Option Nat × Disk} (texts : Texts)
    (does : ∀ filename data, (command filename.chars data).Does disk buffer
      (answered (texts.report (call filename (fun i => data.getD i 0) data.length)))) (rest : Text) :
    (parseData texts command rest.chars).Does disk buffer
      (answered (dataBranch texts call disk rest)) := by
  rw [dataBranch, parseData]
  cases called : strtok blanks rest with
  | mk token after =>
      cases token with
      | none =>
          rw [words_eq_nil called]
          rfl
      | some filename =>
          obtain ⟨split, behind⟩ := words_eq_cons called
          have line := (strtok_runs newline after).1
          rw [split, behind, List.head?_cons, lineData]
          cases found : strtok newline after with
          | mk data last =>
              rw [found] at line
              have line' : (runs isNewline after.chars).head? = data.map Text.chars := line.symm
              simp only [found, line']
              cases data with
              | none => rfl
              | some data => exact does filename.fileName data.chars

theorem chmodBranch_does (disk : Disk) (buffer : Bytes) (rest : Text) :
    (parseChmod (words rest.chars)).Does disk buffer (answered (chmodBranch disk rest)) := by
  rw [chmodBranch]
  cases called : strtok blanks rest with
  | mk token after =>
      cases token with
      | none =>
          rw [words_eq_nil called]
          rfl
      | some filename =>
          rw [(words_eq_cons called).1]
          cases called' : strtok blanks after with
          | mk permStr last =>
              simp only [called']
              cases permStr with
              | none =>
                  rw [words_eq_nil called']
                  rfl
              | some permStr =>
                  rw [(words_eq_cons called').1]
                  exact ⟨filename.fileName, rfl, rfl⟩

theorem fileBranch_does (disk : Disk) (buffer : Bytes) (rest : Text) :
    (parseFile rest.chars).Does disk buffer (answered (fileBranch disk buffer rest)) := by
  rw [fileBranch, parseFile]
  cases called : strtok blanks rest with
  | mk token after =>
      cases token with
      | none =>
          rw [words_eq_nil called]
          rfl
      | some operation =>
          obtain ⟨split, behind⟩ := words_eq_cons called
          rw [split, behind]
          simp (disch := decide +kernel) only [Text.strcmp_iff]
          split
          · apply nameBranch_does
            exact fun filename => ⟨filename, rfl, rfl⟩
          split
          · apply nameBranch_does
            exact fun filename => ⟨filename, rfl, rfl⟩
          split
          · apply dataBranch_does
            exact fun filename data => ⟨filename, rfl, rfl⟩
          split
          · apply dataBranch_does
            exact fun filename data => ⟨filename, rfl, rfl⟩
          split
          · apply nameBranch_does
            exact fun filename => ⟨filename, rfl, rfl⟩
          split
          · rfl
          split
          · exact chmodBranch_does disk buffer after
          · rfl

theorem isTest_iff {text rest : Text} {token : Option Text}
    (called : strtok blanks text = (token, rest)) :
    isTest token = true ↔ (words text.chars).head? = some (message "test") := by
  cases token with
  | none =>
      rw [words_eq_nil called]
      simp [isTest]
  | some token =>
      rw [(words_eq_cons called).1, isTest, decide_eq_true_iff,
        token.strcmp_iff (by decide +kernel), List.head?_cons, Option.some.injEq]

theorem priorityOf_eq {text rest : Text} {token : Option Text}
    (called : strtok blanks text = (token, rest)) :
    priorityOf token = parsePriority (words text.chars).head? := by
  cases token with
  | none =>
      rw [words_eq_nil called]
      rfl
  | some token =>
      rw [(words_eq_cons called).1]
      rfl

theorem find_processCommands (token : Text) :
    (processCommands.find? fun command => decide (strcmp token.chars command.name = 0)) =
      processCommands.find? fun command => decide (token.chars = command.name) := by
  apply List.find?_congr
  intro command member
  have proper : ∀ command ∈ processCommands, ∀ c ∈ command.name, c ≠ 0 := by decide +kernel
  exact decide_eq_decide.mpr (token.strcmp_iff (proper command member))

theorem queueing_processCommands {command : ProcessCommand} (member : command ∈ processCommands) :
    queueing command.func = queueingProcess := by
  simp only [processCommands, List.mem_cons, List.not_mem_nil, or_false] at member
  rcases member with rfl | rfl | rfl <;> rfl

theorem processBranch_does (disk : Disk) (buffer : Bytes) (rest : Text) :
    (parseProcess (words rest.chars)).Does disk buffer
      ⟨(processBranch rest).1, disk, (processBranch rest).2⟩ := by
  rw [processBranch]
  cases called : strtok blanks rest with
  | mk token after =>
      cases token with
      | none =>
          rw [words_eq_nil called]
          rfl
      | some token2 =>
          cases called3 : strtok blanks after with
          | mk token3 after3 =>
              cases called4 : strtok blanks after3 with
              | mk token4 last =>
                  have behind : behindWord after.chars = after3.chars := by
                    have later := (strtok_runs blanks after).2
                    rw [called3] at later
                    exact later.symm
                  rw [(words_eq_cons called).1, parseProcess, ← words_behindWord, behind,
                    ← priorityOf_eq called3, ← priorityOf_eq called4]
                  simp (disch := decide +kernel) only [called3, called4, Text.strcmp_iff,
                    find_processCommands, isTest_iff called3]
                  split
                  · rfl
                  split
                  · rfl
                  split
                  · rfl
                  cases found : processCommands.find? fun command =>
                      decide (token2.chars = command.name) with
                  | none => rfl
                  | some command =>
                      simp only [← queueing_processCommands (List.mem_of_find?_eq_some found)]
                      rfl

/-- What the loop does with a line is what its command does. -/
theorem cliLine_does (disk : Disk) (entry : Entry) :
    (parse entry.line.chars).Does disk entry.buffer (cliLine disk entry) := by
  rw [cliLine, parse]
  cases called : strtok blanks entry.line with
  | mk token rest =>
      cases token with
      | none =>
          rw [words_eq_nil called]
          rfl
      | some token1 =>
          obtain ⟨split, behind⟩ := words_eq_cons called
          rw [split, behind]
          simp (disch := decide +kernel) only [Text.strcmp_iff]
          split
          · rfl
          split
          · exact processBranch_does disk entry.buffer rest
          split
          · exact fileBranch_does disk entry.buffer rest
          split
          · rfl
          · rfl

/-! ## The file system's part -/

section Operations

variable {disk : Disk} {call : FileName → Operation} {answer : FileName → List Byte × Disk}

def afterCall (disk : Disk) (operation : Option Operation) : Disk :=
  match operation with
  | some operation => (perform disk operation).2
  | none => disk

theorem nameBranch_disk (texts : Texts)
    (calls : ∀ filename, (answer filename).2 = (perform disk (call filename)).2) (rest : Text) :
    (nameBranch texts answer disk rest).2 = afterCall disk (onFilename rest call) := by
  rw [nameBranch, onFilename]
  cases (strtok blanks rest).1 with
  | none => rfl
  | some filename => exact calls filename.fileName

theorem dataBranch_disk {call : FileName → Bytes → Nat → Option Nat × Disk}
    {operation : FileName → Bytes → Nat → Operation} (texts : Texts)
    (calls : ∀ filename data size, call filename data size =
      perform disk (operation filename data size)) (rest : Text) :
    (dataBranch texts call disk rest).2 = afterCall disk (onData rest operation) := by
  rw [dataBranch, onData]
  cases strtok blanks rest with
  | mk filename rest =>
      cases filename with
      | none => rfl
      | some filename =>
          dsimp only
          cases (strtok newline rest).1 with
          | none => rfl
          | some data =>
              exact congrArg Prod.snd (calls filename.fileName data.bytes data.chars.length)

theorem chmodBranch_disk (disk : Disk) (rest : Text) :
    (chmodBranch disk rest).2 = afterCall disk (onChmod rest) := by
  rw [chmodBranch, onChmod]
  cases strtok blanks rest with
  | mk filename rest =>
      cases filename with
      | none => rfl
      | some filename =>
          dsimp only
          cases (strtok blanks rest).1 with
          | none => rfl
          | some permStr => rfl

theorem readAnswer_disk (disk : Disk) (buffer : Bytes) (filename : FileName) :
    (readAnswer disk buffer filename).2 = disk := by
  rw [readAnswer]
  split <;> rfl

end Operations

theorem fileBranch_disk {disk : Disk} {buffer : Bytes} {operation rest text : Text}
    (called : strtok blanks text = (some operation, rest)) :
    (fileBranch disk buffer text).2 = afterCall disk (fileOperation buffer operation rest) := by
  have make : message "make" = ['m', 'a', 'k', 'e'].map code := rfl
  have read : message "read" = ['r', 'e', 'a', 'd'].map code := rfl
  have write : message "write" = ['w', 'r', 'i', 't', 'e'].map code := rfl
  have append : message "append" = ['a', 'p', 'p', 'e', 'n', 'd'].map code := rfl
  have rm : message "rm" = ['r', 'm'].map code := rfl
  have ls : message "ls" = ['l', 's'].map code := rfl
  have chmod : message "chmod" = ['c', 'h', 'm', 'o', 'd'].map code := rfl
  rw [fileBranch, called]
  dsimp only
  rw [make, read, write, append, rm, ls, chmod, fileOperation]
  split
  · exact nameBranch_disk makeTexts (fun _ => rfl) rest
  split
  · exact nameBranch_disk readTexts (readAnswer_disk disk buffer) rest
  split
  · show (dataBranch writeTexts (writeFile disk) disk rest).2 = _
    apply dataBranch_disk
    exact fun _ _ _ => rfl
  split
  · show (dataBranch appendTexts (appendToFile disk) disk rest).2 = _
    apply dataBranch_disk
    exact fun _ _ _ => rfl
  split
  · exact nameBranch_disk rmTexts (fun _ => rfl) rest
  split
  · rfl
  split
  · exact chmodBranch_disk disk rest
  · rfl

theorem cliLine_disk (disk : Disk) (entry : Entry) :
    (cliLine disk entry).disk = runLine disk entry := by
  have file : message "file" = ['f', 'i', 'l', 'e'].map code := rfl
  show _ = afterCall disk (fileCommand entry.buffer entry.line)
  rw [cliLine, fileCommand, ← file]
  cases called : strtok blanks entry.line with
  | mk token rest =>
      cases token with
      | none => rfl
      | some token1 =>
          simp (disch := decide +kernel) only [Text.strcmp_iff]
          by_cases named : token1.chars = message "file"
          · have other : token1.chars ≠ message "exit" ∧ token1.chars ≠ message "process" := by
              rw [named]
              decide
            rw [if_neg other.1, if_neg other.2, if_pos named, if_pos named]
            cases called' : strtok blanks rest with
            | mk operation last =>
                cases operation with
                | none =>
                    show (fileBranch disk entry.buffer rest).2 = disk
                    rw [fileBranch, called']
                | some operation => exact fileBranch_disk called'
          · rw [if_neg named, if_neg named]
            split
            · rfl
            split
            · rfl
            split <;> rfl

end ApnaOS.Shell
