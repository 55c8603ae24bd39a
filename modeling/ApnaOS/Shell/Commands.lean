import ApnaOS.FileSystem.Disk
import ApnaOS.Keyboard.Handler

/-!
# The file commands of cli_loop

A line is cut into tokens by `strtok` and turned into one call of the file system.  A C
string is the list of its characters; `strtok` keeps its place in a static pointer, which is
here the rest of the line.  What is printed is left out.
-/

set_option autoImplicit false

namespace ApnaOS.Shell

open ApnaOS.Lib ApnaOS.FileSystem
open ApnaOS.StringOps (Byte Bytes)
open ApnaOS.Keyboard (code)

def maxInputLength : Nat := 128

/-- A string without NUL that fits `input` with its terminator. -/
structure Text where
  chars : List Byte
  nul_free : ∀ c ∈ chars, c ≠ 0
  short : chars.length < maxInputLength

namespace Text

def part (text : Text) (chars : List Byte) (inside : chars.Sublist text.chars) : Text where
  chars := chars
  nul_free := fun c member => text.nul_free c (inside.subset member)
  short := Nat.lt_of_le_of_lt inside.length_le text.short

def bytes (text : Text) : Bytes := fun i => text.chars.getD i 0

def fileName (text : Text) : FileName where
  chars := text.chars
  nul_free := text.nul_free
  short := by
    have short := text.short
    unfold maxInputLength at short
    unfold maxFilenameLen
    omega

/-- `while (*static_str && strchr(delim, *static_str)) static_str++;` -/
def skip (delim : List Byte) (text : Text) : Text :=
  text.part (text.chars.dropWhile fun c => delim.contains c) (List.dropWhile_sublist _)

/-- The characters in front of the next one of `delim`. -/
def word (delim : List Byte) (text : Text) : Text :=
  text.part (text.chars.takeWhile fun c => !delim.contains c) (List.takeWhile_sublist _)

def afterWord (delim : List Byte) (text : Text) : Text :=
  text.part (text.chars.dropWhile fun c => !delim.contains c).tail
    ((List.tail_sublist _).trans (List.dropWhile_sublist _))

end Text

/-- `strtok` with `static_str` at the start of `text`: the token, and the text `static_str`
points to afterwards. -/
def strtok (delim : List Byte) (text : Text) : Option Text × Text :=
  let start := text.skip delim
  if start.chars = [] then (none, start)
  else (some (start.word delim), start.afterWord delim)

def strcmp : List Byte → List Byte → Int
  | c1 :: s1, c2 :: s2 => if c1 = c2 then strcmp s1 s2 else c1.toNat - c2.toNat
  | c1 :: _, [] => c1.toNat
  | [], c2 :: _ => -c2.toNat
  | [], [] => 0

/-- The loop of `atoi`; an `int` is given by its 32 bits. -/
def atoiLoop (num : UInt32) : List Byte → UInt32
  | [] => num
  | c :: s => if 48 ≤ c ∧ c ≤ 57 then atoiLoop (num * 10 + (c - 48).toUInt32) s else num

def atoi : List Byte → UInt32
  | [] => 0
  | c :: s => if c = 45 then 0 - atoiLoop 0 s else atoiLoop 0 (c :: s)

def blanks : List Byte := [32, 9]

def newline : List Byte := [10]

/-- The size of `buffer` in the branch for `file read`. -/
def readBufferSize : Nat := 128

def onFilename (rest : Text) (call : FileName → Operation) : Option Operation :=
  (strtok blanks rest).1.map fun filename => call filename.fileName

/-- The branch for an operation with a file name and data to the end of the line. -/
def onData (rest : Text) (call : FileName → Bytes → Nat → Operation) : Option Operation :=
  let (filename, rest) := strtok blanks rest
  let (data, _) := strtok newline rest
  match filename, data with
  | some filename, some data => some (call filename.fileName data.bytes data.chars.length)
  | _, _ => none

def onChmod (rest : Text) : Option Operation :=
  let (filename, rest) := strtok blanks rest
  let (permStr, _) := strtok blanks rest
  match filename, permStr with
  | some filename, some permStr =>
      some (.chmodFile filename.fileName (atoi permStr.chars).toUInt16)
  | _, _ => none

/-- The call of a `file` command; `buffer` is what the array of the read branch holds before
it.  `ls` and unknown operations only print. -/
def fileOperation (buffer : Bytes) (operation rest : Text) : Option Operation :=
  if strcmp operation.chars (['m', 'a', 'k', 'e'].map code) = 0 then
    onFilename rest .createFile
  else if strcmp operation.chars (['r', 'e', 'a', 'd'].map code) = 0 then
    onFilename rest fun filename => .readFile filename buffer readBufferSize
  else if strcmp operation.chars (['w', 'r', 'i', 't', 'e'].map code) = 0 then
    onData rest .writeFile
  else if strcmp operation.chars (['a', 'p', 'p', 'e', 'n', 'd'].map code) = 0 then
    onData rest .appendToFile
  else if strcmp operation.chars (['r', 'm'].map code) = 0 then
    onFilename rest .deleteFile
  else if strcmp operation.chars (['l', 's'].map code) = 0 then none
  else if strcmp operation.chars (['c', 'h', 'm', 'o', 'd'].map code) = 0 then onChmod rest
  else none

def fileCommand (buffer : Bytes) (line : Text) : Option Operation :=
  match strtok blanks line with
  | (none, _) => none
  | (some token1, rest) =>
      if strcmp token1.chars (['f', 'i', 'l', 'e'].map code) = 0 then
        match strtok blanks rest with
        | (none, _) => none
        | (some operation, rest) => fileOperation buffer operation rest
      else none

/-! ## Runs -/

/-- A line given to the shell, and what the stack holds where the read branch has its array. -/
structure Entry where
  line : Text
  buffer : Bytes

def Entry.command (entry : Entry) : Option Operation := fileCommand entry.buffer entry.line

def runLine (disk : Disk) (entry : Entry) : Disk :=
  match entry.command with
  | some operation => (perform disk operation).2
  | none => disk

/-- Every sequence of lines given to the shell after `format_disk`. -/
def fileShell : System Disk Entry where
  initial disk := ∃ before, disk = formatDisk before
  step disk entry := some (runLine disk entry)

end ApnaOS.Shell
