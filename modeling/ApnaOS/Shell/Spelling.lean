import ApnaOS.Shell.Grammar

/-!
# How commands are written

Every command of the shell can be written on a line, with blanks in any number around its
words and its numbers in decimal.  The shell reads the command back from all of these lines.
-/

set_option autoImplicit false

namespace ApnaOS.Shell

open ApnaOS.Lib ApnaOS.FileSystem
open ApnaOS.StringOps (Byte Bytes)

/-! ## Numbers -/

def isDigit (c : Byte) : Bool := decide (48 ≤ c ∧ c ≤ 57)

/-- `num` with the digits at the start of a text behind its own. -/
def numberFrom (num : Nat) (text : List Byte) : Nat :=
  (text.takeWhile isDigit).foldl (fun num c => num * 10 + (c.toNat - 48)) num

/-- The number that a word says: a minus or none, and digits up to the first other character. -/
def numberIn (word : Word) : Int :=
  if word.head? = some 45 then -(numberFrom 0 word.tail : Int) else numberFrom 0 word

example : numberIn (message "-007x8") = -7 := by decide +kernel

/-- The number is an `int`. -/
def IsInt (n : Int) : Prop := Int32.minValue.toInt ≤ n ∧ n ≤ Int32.maxValue.toInt

instance (n : Int) : Decidable (IsInt n) := inferInstanceAs (Decidable (_ ∧ _))

theorem numberFrom_cons_of_digit {c : Byte} (digit : 48 ≤ c ∧ c ≤ 57) (num : Nat)
    (rest : List Byte) : numberFrom num (c :: rest) = numberFrom (num * 10 + (c.toNat - 48)) rest := by
  rw [numberFrom, List.takeWhile_cons, isDigit, decide_eq_true digit, if_pos rfl, List.foldl_cons]
  rfl

theorem numberFrom_cons_of_other {c : Byte} (other : ¬ (48 ≤ c ∧ c ≤ 57)) (num : Nat)
    (rest : List Byte) : numberFrom num (c :: rest) = num := by
  rw [numberFrom, List.takeWhile_cons, isDigit, decide_eq_false other, if_neg Bool.false_ne_true]
  rfl

theorem atoiLoop_eq (num : Nat) (text : List Byte) :
    atoiLoop (UInt32.ofNat num) text = UInt32.ofNat (numberFrom num text) := by
  induction text generalizing num with
  | nil => rfl
  | cons c rest ih =>
      rw [atoiLoop]
      by_cases digit : 48 ≤ c ∧ c ≤ 57
      · have value : (c - 48).toUInt32 = UInt32.ofNat (c.toNat - 48) := by
          rw [← UInt32.toNat_inj, UInt8.toNat_toUInt32, UInt8.toNat_sub_of_le c 48 digit.1,
            UInt32.toNat_ofNat_of_lt' ((Nat.sub_le _ _).trans_lt (c.toNat_lt.trans (by decide)))]
          rfl
        have next : UInt32.ofNat num * 10 + (c - 48).toUInt32 =
            UInt32.ofNat (num * 10 + (c.toNat - 48)) := by
          rw [value, UInt32.ofNat_add, UInt32.ofNat_mul]
          rfl
        rw [if_pos digit, next, ih, numberFrom_cons_of_digit digit]
      · rw [if_neg digit, numberFrom_cons_of_other digit]

/-- `atoi` reads the number modulo 2 to the 32. -/
theorem atoi_eq (word : Word) : atoi word = UInt32.ofInt (numberIn word) := by
  have unsigned (m : Nat) : UInt32.ofInt m = UInt32.ofNat m := by
    rw [UInt32.ofInt, ← UInt32.toNat_inj, UInt32.toNat_ofNat', UInt32.toNat_ofNat']
    omega
  cases word with
  | nil => rfl
  | cons c rest =>
      have first : (c :: rest).head? = some 45 ↔ c = 45 := Option.some_inj
      rw [atoi, numberIn]
      by_cases minus : c = 45
      · rw [if_pos minus, if_pos (first.mpr minus), UInt32.ofInt_neg, ← UInt32.zero_sub, unsigned]
        exact congrArg (0 - ·) (atoiLoop_eq 0 rest)
      · rw [if_neg minus, if_neg (fun same => minus (first.mp same)), unsigned]
        exact atoiLoop_eq 0 (c :: rest)

theorem intOf_eq {word : Word} (fits : IsInt (numberIn word)) : intOf word = numberIn word := by
  have signed : (UInt32.ofInt (numberIn word)).toInt32 = Int32.ofInt (numberIn word) := by
    apply Int32.toBitVec.inj
    apply BitVec.eq_of_toNat_eq
    show (numberIn word % 4294967296).toNat % 4294967296 = _
    rw [Int32.toBitVec_ofInt, BitVec.toNat_ofInt]
    omega
  obtain ⟨least, greatest⟩ := fits
  rw [Int32.toInt_minValue] at least
  rw [Int32.toInt_maxValue] at greatest
  rw [intOf, atoi_eq, signed, Int32.toInt_ofInt_of_le least (by omega)]

theorem permissions_eq (word : Word) :
    (atoi word).toUInt16 = UInt16.ofInt (numberIn word) := by
  rw [atoi_eq, ← UInt16.toNat_inj, UInt32.toNat_toUInt16, UInt32.ofInt, UInt16.ofInt,
    UInt32.toNat_ofNat', UInt16.toNat_ofNat']
  omega

/-! ## Commands -/

/-- The words that name a function behind `process`. -/
def programWords : EntryPoint → List Word
  | .dummyProcess1 => [message "dummy1"]
  | .dummyProcess2 => [message "dummy2"]
  | .dummyProcess3 => [message "dummy3"]
  | .syscallTest => [message "syscall", message "test"]
  | .processTest => [message "process", message "test"]

/-- The words of a command without data. -/
inductive Spelled : Command → List Word → Prop where
  | blank : Spelled .blank []
  | exit : Spelled .exit [message "exit"]
  | start : Spelled .start [message "process", message "start"]
  | queue (entryPoint : EntryPoint) {priority : Word} (fits : IsInt (numberIn priority)) :
      Spelled (.queue entryPoint (numberIn priority))
        (message "process" :: programWords entryPoint ++ [priority])
  | queueDefault (entryPoint : EntryPoint) :
      Spelled (.queue entryPoint 1) (message "process" :: programWords entryPoint)
  | make (name : Word) : Spelled (.make name) [message "file", message "make", name]
  | read (name : Word) : Spelled (.read name) [message "file", message "read", name]
  | remove (name : Word) : Spelled (.remove name) [message "file", message "rm", name]
  | chmod (name : Word) {permissions : Word} (fits : IsInt (numberIn permissions)) :
      Spelled (.chmod name (UInt16.ofInt (numberIn permissions)))
        [message "file", message "chmod", name, permissions]
  | list : Spelled .list [message "ls"]
  | fileList : Spelled .list [message "file", message "ls"]

inductive Spells : Command → List Byte → Prop where
  | words {command : Command} {spelled : List Word} {line : List Byte}
      (spelling : Spelled command spelled) (separated : Separated isBlank spelled line) :
      Spells command line
  | write {name data line : List Byte}
      (opens : Opens isBlank data [message "file", message "write", name] line)
      (nonempty : data ≠ []) (oneLine : ∀ c ∈ data, isNewline c = false) :
      Spells (.write name data) line
  | append {name data line : List Byte}
      (opens : Opens isBlank data [message "file", message "append", name] line)
      (nonempty : data ≠ []) (oneLine : ∀ c ∈ data, isNewline c = false) :
      Spells (.append name data) line

/-! ## Reading back -/

theorem parse_file {line : List Byte} {operation : Word} {more : List Word}
    (split : words line = message "file" :: operation :: more) :
    parse line = parseFile (behindWord line) ∧
      words (behindWord line) = operation :: more := by
  constructor
  · rw [parse, split]
    rfl
  · rw [words_behindWord, split]
    rfl

theorem parse_program {line : List Byte} {entryPoint : EntryPoint} {more : List Word}
    (split : words line = message "process" :: programWords entryPoint ++ more) :
    parse line = .queue entryPoint (parsePriority more.head?) := by
  rw [parse, split]
  cases entryPoint with
  | dummyProcess1 | dummyProcess2 | dummyProcess3 | syscallTest | processTest => rfl

theorem Spelled.parse {command : Command} {spelled : List Word} {line : List Byte}
    (spelling : Spelled command spelled) (split : words line = spelled) :
    parse line = command := by
  cases spelling with
  | blank => rw [Shell.parse, split]
  | exit =>
      rw [Shell.parse, split]
      rfl
  | start =>
      rw [Shell.parse, split]
      rfl
  | queue entryPoint fits =>
      rw [parse_program split, List.head?_cons, parsePriority, intOf_eq fits]
  | queueDefault entryPoint =>
      have split' : words line = message "process" :: programWords entryPoint ++ [] := by
        rw [split, List.append_nil]
      rw [parse_program split']
      rfl
  | make name | read name | remove name =>
      obtain ⟨file, more⟩ := parse_file split
      rw [file, parseFile, more]
      rfl
  | @chmod name permissions =>
      obtain ⟨file, more⟩ := parse_file split
      rw [file, parseFile, more]
      show Command.chmod name (atoi permissions).toUInt16 = _
      rw [permissions_eq]
  | list =>
      rw [Shell.parse, split]
      rfl
  | fileList =>
      obtain ⟨file, more⟩ := parse_file split
      rw [file, parseFile, more]
      rfl

theorem opens_cons {data line : List Byte} {word : Word} {more : List Word}
    (opens : Opens isBlank data (word :: more) line) :
    words line = word :: words (behindWord line) ∧ Opens isBlank data more (behindWord line) := by
  cases opens with
  | @cons gap _ text d _ delims nonempty items ended tail =>
      have behind : behindWord (gap ++ word ++ d :: text) = text :=
        behind_run delims nonempty items ended
      rw [behind]
      refine ⟨?_, tail⟩
      have cut : words (gap ++ word ++ d :: text) = word :: words text := by
        rw [words, List.append_assoc, runs_gap delims]
        apply runs_append nonempty items
        intro c first
        rw [← Option.some.inj first]
        exact ended
      exact cut

theorem opens_nil {data line : List Byte} (opens : Opens isBlank data [] line) : line = data := by
  cases opens with
  | nil => rfl

theorem lineData_eq {data : List Byte} (nonempty : data ≠ [])
    (oneLine : ∀ c ∈ data, isNewline c = false) : lineData data = some data := by
  have ended : ∀ c ∈ ([] : List Byte).head?, isNewline c = true := fun _ first => nomatch first
  have cut := runs_append nonempty oneLine ended
  rw [List.append_nil] at cut
  rw [lineData, cut]
  rfl

theorem parse_data {data line : List Byte} {operation name : Word}
    (opens : Opens isBlank data [message "file", operation, name] line) (nonempty : data ≠ [])
    (oneLine : ∀ c ∈ data, isNewline c = false) :
    ∃ text, parse line = parseFile text ∧ (words text).head? = some operation ∧
      ∀ texts command, parseData texts command (behindWord text) = command name data := by
  obtain ⟨first, opens⟩ := opens_cons opens
  obtain ⟨second, opens⟩ := opens_cons opens
  obtain ⟨third, opens⟩ := opens_cons opens
  obtain ⟨file, _⟩ := parse_file (first.trans (congrArg (message "file" :: ·) second))
  refine ⟨behindWord line, file, by rw [second]; rfl, ?_⟩
  intro texts command
  rw [parseData, third, opens_nil opens, lineData_eq nonempty oneLine]
  rfl

theorem Spells.parse {command : Command} {line : List Byte} (spells : Spells command line) :
    parse line = command := by
  cases spells with
  | words spelling separated => exact spelling.parse separated.runs
  | write opens nonempty oneLine | append opens nonempty oneLine =>
      obtain ⟨text, file, operation, data⟩ := parse_data opens nonempty oneLine
      obtain ⟨more, split⟩ := List.head?_eq_some_iff.mp operation
      rw [file, parseFile, split]
      exact data _ _

/-- However a command is laid out on a line, the shell does what the command asks for, and no
line asks for two commands. -/
theorem commands_understood (disk : Disk) (entry : Entry) (command : Command)
    (spells : Spells command entry.line.chars) :
    command.Does disk entry.buffer (cliLine disk entry) ∧
      ∀ other, Spells other entry.line.chars → other = command := by
  constructor
  · have does := cliLine_does disk entry
    rwa [spells.parse] at does
  · intro other spells'
    rw [← spells'.parse, spells.parse]

/-- Two blanks in front, a tab, and a negative priority with zeros in front of it. -/
def queueLine : Text :=
  ⟨[32, 32] ++ message "process" ++ ([9] ++ message "syscall" ++ ([32] ++ message "test" ++
    ([32, 9] ++ message "-007" ++ []))), by decide +kernel, by decide +kernel⟩

theorem commands_understood_queue :
    (Command.queue .syscallTest (-7)).Does zeroDisk (fun _ => 0)
        (cliLine zeroDisk ⟨queueLine, fun _ => 0⟩) ∧
      ∀ other, Spells other queueLine.chars → other = .queue .syscallTest (-7) :=
  commands_understood zeroDisk ⟨queueLine, fun _ => 0⟩ (.queue .syscallTest (-7))
    (.words (Spelled.queue .syscallTest (show IsInt (numberIn (message "-007")) by decide +kernel))
      (.cons (by decide +kernel) (by decide +kernel) (by decide +kernel) (by decide +kernel)
        (.cons (by decide +kernel) (by decide +kernel) (by decide +kernel) (by decide +kernel)
          (.cons (by decide +kernel) (by decide +kernel) (by decide +kernel) (by decide +kernel)
            (.cons (by decide +kernel) (by decide +kernel) (by decide +kernel) (by decide +kernel)
              (.nil (by decide +kernel)))))))

end ApnaOS.Shell
