import ApnaOS.FileSystem.Refinement
import ApnaOS.Screen.Console
import ApnaOS.Shell.Commands

/-!
# One round of cli_loop

What the loop does with a line: it prints, it calls the file system, or it asks for a process
or for the scheduler.  Behind the line it goes on, or `schedule` or `kernel_main` does.  The
messages on the serial port are left out.
-/

set_option autoImplicit false

namespace ApnaOS.Shell

open ApnaOS.Lib ApnaOS.FileSystem
open ApnaOS.StringOps (Byte Bytes)
open ApnaOS.Keyboard (code)
open Function (update)

def message (text : String) : List Byte := text.toList.map code

/-- The characters in front of the terminator in an array of `size` bytes. -/
def stringIn (size : Nat) (memory : Bytes) : List Byte :=
  ((List.range size).map memory).takeWhile fun c => decide (c ≠ 0)

inductive EntryPoint where
  | dummyProcess1
  | dummyProcess2
  | dummyProcess3
  | syscallTest
  | processTest
  deriving DecidableEq

/-- What a line asks of the rest of the kernel.  `create_process` gets a new pid and 1 and 2 for
the deadline and the time to run. -/
inductive Request where
  | nothing
  | exit
  | schedule
  | createProcess (entryPoint : EntryPoint) (priority : Int)
  deriving DecidableEq

structure ProcessCommand where
  name : List Byte
  func : EntryPoint

def processCommands : List ProcessCommand :=
  [⟨message "dummy1", .dummyProcess1⟩, ⟨message "dummy2", .dummyProcess2⟩,
    ⟨message "dummy3", .dummyProcess3⟩]

structure Outcome where
  printed : List Byte
  disk : Disk
  request : Request

/-! ## Processes -/

/-- An `int` as `atoi` returns it. -/
def intOf (chars : List Byte) : Int := (atoi chars).toInt32.toInt

/-- `int priority = 1; if (token) priority = atoi(token);` -/
def priorityOf (token : Option Text) : Int :=
  match token with
  | none => 1
  | some token => intOf token.chars

/-- `token && strcmp(token, "test") == 0` -/
def isTest (token : Option Text) : Bool :=
  match token with
  | none => false
  | some token => decide (strcmp token.chars (message "test") = 0)

def processUsage : List Byte :=
  message "Usage: process <dummy1|dummy2|dummy3|syscall test|process test|start> [priority]\n"

def queueingSyscallTest : List Byte := message "Queueing syscall_test process...\n"
def queueingProcessTest : List Byte := message "Queueing process_test process...\n"
def queueingProcess : List Byte := message "Queueing process...\n"

def starting : List Byte := message "Starting scheduled processes...\n"

def unknownProcess : List Byte := message "Error: Unknown process name.\n"

/-- The branch for `process`. -/
def processBranch (rest : Text) : List Byte × Request :=
  match strtok blanks rest with
  | (none, _) => (processUsage, .nothing)
  | (some token2, rest) =>
      if strcmp token2.chars (message "start") = 0 then
        (starting, .schedule)
      else
        let (token3, rest) := strtok blanks rest
        let (token4, _) := strtok blanks rest
        if strcmp token2.chars (message "syscall") = 0 ∧ isTest token3 then
          (queueingSyscallTest, .createProcess .syscallTest (priorityOf token4))
        else if strcmp token2.chars (message "process") = 0 ∧ isTest token3 then
          (queueingProcessTest, .createProcess .processTest (priorityOf token4))
        else
          let priority := priorityOf token3
          match processCommands.find? fun command =>
              decide (strcmp token2.chars command.name = 0) with
          | some command => (queueingProcess, .createProcess command.func priority)
          | none => (unknownProcess, .nothing)

/-! ## Files -/

/-- What an operation prints without its arguments, for `-1` and for every other result. -/
structure Texts where
  usage : List Byte
  failed : List Byte
  done : List Byte

def makeTexts : Texts where
  usage := message "Usage: file make <filename>\n"
  failed := message "Error: Failed to create file.\n"
  done := message "File created successfully.\n"

def readTexts : Texts where
  usage := message "Usage: file read <filename>\n"
  failed := message "Error: Failed to read file.\n"
  done := message "File content: "

def writeTexts : Texts where
  usage := message "Usage: file write <filename> <data>\n"
  failed := message "Error: Failed to write to file.\n"
  done := message "Data written to file successfully.\n"

def appendTexts : Texts where
  usage := message "Usage: file append <filename> <data>\n"
  failed := message "Error: Failed to append to file.\n"
  done := message "Data appended to file successfully.\n"

def rmTexts : Texts where
  usage := message "Usage: file rm <filename>\n"
  failed := message "Error: Failed to delete file.\n"
  done := message "File deleted successfully.\n"

def chmodTexts : Texts where
  usage := message "Usage: file chmod <filename> <permissions>\n"
  failed := message "Error: Failed to change file permissions.\n"
  done := message "File permissions changed successfully.\n"

def fileUsage : List Byte := message "Usage: file <operation> <filename> [args]\n"

def unknownOperation : List Byte :=
  message "Unknown file operation. Use 'make', 'read', 'write', 'append', 'rm', or 'ls'.\n"

def Texts.report (texts : Texts) (called : Option Nat × Disk) : List Byte × Disk :=
  (if called.1 = none then texts.failed else texts.done, called.2)

def nameBranch (texts : Texts) (answer : FileName → List Byte × Disk) (disk : Disk)
    (rest : Text) : List Byte × Disk :=
  match (strtok blanks rest).1 with
  | none => (texts.usage, disk)
  | some filename => answer filename.fileName

/-- The branch for an operation with a file name and data to the end of the line. -/
def dataBranch (texts : Texts) (call : FileName → Bytes → Nat → Option Nat × Disk) (disk : Disk)
    (rest : Text) : List Byte × Disk :=
  let (filename, rest) := strtok blanks rest
  let (data, _) := strtok newline rest
  match filename, data with
  | some filename, some data =>
      texts.report (call filename.fileName data.bytes data.chars.length)
  | _, _ => (texts.usage, disk)

def makeBranch (disk : Disk) : Text → List Byte × Disk :=
  nameBranch makeTexts (fun filename => makeTexts.report (createFile disk filename)) disk

/-- The contents are printed up to the terminator, which is stored behind what `read_file` has
filled; `buffer` is what the array held before. -/
def readAnswer (disk : Disk) (buffer : Bytes) (filename : FileName) : List Byte × Disk :=
  match readFile disk filename buffer readBufferSize with
  | (none, _) => (readTexts.failed, disk)
  | (some bytesRead, buffer) =>
      let buffer := update buffer bytesRead 0
      (readTexts.done ++ stringIn (readBufferSize + 1) buffer ++ message "\n", disk)

def readBranch (disk : Disk) (buffer : Bytes) : Text → List Byte × Disk :=
  nameBranch readTexts (readAnswer disk buffer) disk

def writeBranch (disk : Disk) : Text → List Byte × Disk :=
  dataBranch writeTexts (writeFile disk) disk

def appendBranch (disk : Disk) : Text → List Byte × Disk :=
  dataBranch appendTexts (appendToFile disk) disk

def rmBranch (disk : Disk) : Text → List Byte × Disk :=
  nameBranch rmTexts (fun filename => rmTexts.report (deleteFile disk filename)) disk

def chmodBranch (disk : Disk) (rest : Text) : List Byte × Disk :=
  let (filename, rest) := strtok blanks rest
  let (permStr, _) := strtok blanks rest
  match filename, permStr with
  | some filename, some permStr =>
      chmodTexts.report (chmodFile disk filename.fileName (atoi permStr.chars).toUInt16)
  | _, _ => (chmodTexts.usage, disk)

/-- `list_files`: the name in every occupied slot and a newline. -/
def listFiles (disk : Disk) : List Byte :=
  (List.range maxFiles).flatMap fun i =>
    if (disk.rootDirectory i).inodeNumber ≠ 0 then
      stringIn maxFilenameLen (disk.rootDirectory i).filename ++ message "\n"
    else []

/-- The branch for `file`. -/
def fileBranch (disk : Disk) (buffer : Bytes) (rest : Text) : List Byte × Disk :=
  match strtok blanks rest with
  | (none, _) => (fileUsage, disk)
  | (some operation, rest) =>
      if strcmp operation.chars (message "make") = 0 then makeBranch disk rest
      else if strcmp operation.chars (message "read") = 0 then readBranch disk buffer rest
      else if strcmp operation.chars (message "write") = 0 then writeBranch disk rest
      else if strcmp operation.chars (message "append") = 0 then appendBranch disk rest
      else if strcmp operation.chars (message "rm") = 0 then rmBranch disk rest
      else if strcmp operation.chars (message "ls") = 0 then (listFiles disk, disk)
      else if strcmp operation.chars (message "chmod") = 0 then chmodBranch disk rest
      else (unknownOperation, disk)

def exiting : List Byte := message "Exiting kernel CLI...\n"

def unknownCommand : List Byte :=
  message "Unknown command. Use 'process', 'file', 'ls', or 'exit'.\n"

/-- What the loop does with a line after `read_line`. -/
def cliLine (disk : Disk) (entry : Entry) : Outcome :=
  match strtok blanks entry.line with
  | (none, _) => ⟨[], disk, .nothing⟩
  | (some token1, rest) =>
      if strcmp token1.chars (message "exit") = 0 then
        ⟨exiting, disk, .exit⟩
      else if strcmp token1.chars (message "process") = 0 then
        let (printed, request) := processBranch rest
        ⟨printed, disk, request⟩
      else if strcmp token1.chars (message "file") = 0 then
        let (printed, disk) := fileBranch disk entry.buffer rest
        ⟨printed, disk, .nothing⟩
      else if strcmp token1.chars (message "ls") = 0 then ⟨listFiles disk, disk, .nothing⟩
      else ⟨unknownCommand, disk, .nothing⟩

/-! ## Behind the line -/

/-- An activation of `cli_loop`. -/
structure Loop where
  /-- `schedule` has called it, not `kernel_main`. -/
  nested : Bool
  /-- The ready queue is not empty. -/
  ready : Bool
  deriving DecidableEq

inductive Stage where
  | reading (loop : Loop)
  | process
  /-- `while(1);` of `schedule` -/
  | spinning
  /-- `while(1){ hlt }` of `kernel_main` with interrupts disabled -/
  | halted
  deriving DecidableEq

namespace Loop

/-- `cli_loop` as `kernel_main` calls it. -/
def boot : Loop := ⟨false, false⟩

/-- `cli_loop` as `schedule` calls it with nobody in the ready queue. -/
def again : Loop := ⟨true, false⟩

/-- Where a request leads.  A process is queued if it is `served`: `create_process` has got its
memory. -/
def after (loop : Loop) (served : Bool) : Request → Stage
  | .nothing => .reading loop
  | .createProcess _ _ => .reading { loop with ready := loop.ready || served }
  | .schedule => if loop.ready then .process else .reading again
  | .exit => if loop.nested then .spinning else .halted

end Loop

def prompt : List Byte := message "CLI> "

def terminated : List Byte := message "Kernel execution terminated.\n"

def Stage.prints : Stage → List Byte
  | .reading _ => prompt
  | .process | .spinning => []
  | .halted => terminated

end ApnaOS.Shell
