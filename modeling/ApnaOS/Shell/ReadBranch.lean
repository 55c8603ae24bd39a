import ApnaOS.FileSystem.Refinement
import ApnaOS.Keyboard.StringWrites
import ApnaOS.Shell.Commands

/-!
# The buffer of the read branch

`read_file` fills at most the 128 bytes it is given, and the terminator goes behind what it
has filled: outside the array once the file has 128 bytes or more.
-/

set_option autoImplicit false

namespace ApnaOS.Shell

open ApnaOS.Lib ApnaOS.FileSystem
open ApnaOS.StringOps
open ApnaOS.Keyboard (code)

/-! ## The stores -/

/-- The loop of `read_file`, with the stores into the caller's buffer. -/
def readLoopWrites (storage : Storage) (inode : Inode) (readSize : Nat) :
    Nat → Nat → Writes Byte
  | 0, _ => []
  | fuel + 1, read =>
      if read < readSize then
        match inode.blocks (read / blockSize) with
        | none => []
        | some blockIndex =>
            let chunk := min (blockSize - read % blockSize) (readSize - read)
            memcpyWrites read (storage blockIndex) (read % blockSize) chunk ++
              readLoopWrites storage inode readSize fuel (read + chunk)
      else []

def readFileWrites (disk : Disk) (filename : FileName) (size : Nat) : Writes Byte :=
  match lookup disk filename with
  | some i =>
      let inode := disk.inodeTable ((disk.rootDirectory i).inodeNumber - 1)
      if checkPermissions inode.permissions 0 then
        let readSize := if size > inode.size then inode.size else size
        readLoopWrites disk.storage inode readSize readSize 0
      else []
  | none => []

/-- The stores into `buffer` in the branch for `file read`. -/
def readBranchWrites (disk : Disk) (filename : FileName) (buffer : Bytes) : Writes Byte :=
  readFileWrites disk filename readBufferSize ++
    match (readFile disk filename buffer readBufferSize).1 with
    | some bytesRead => [(bytesRead, 0)]
    | none => []

def lineWrites (disk : Disk) (entry : Entry) : Writes Byte :=
  match entry.command with
  | some (.readFile filename buffer _) => readBranchWrites disk filename buffer
  | _ => []

theorem readLoopWrites_value (storage : Storage) (inode : Inode) (readSize fuel read : Nat)
    (buffer : Bytes) :
    Writes.apply buffer (readLoopWrites storage inode readSize fuel read) =
      (FileSystem.readLoop storage inode readSize fuel read buffer).2 := by
  induction fuel generalizing read buffer with
  | zero => rfl
  | succ fuel ih =>
      rw [readLoopWrites, FileSystem.readLoop]
      by_cases more : read < readSize
      · rw [if_pos more, if_pos more]
        dsimp only
        cases inode.blocks (read / blockSize) with
        | none => rfl
        | some b =>
            dsimp only
            rw [Writes.apply_append, memcpyWrites_value]
            exact ih _ _
      · rw [if_neg more, if_neg more]
        rfl

theorem readFileWrites_value (disk : Disk) (filename : FileName) (buffer : Bytes) (size : Nat) :
    Writes.apply buffer (readFileWrites disk filename size) =
      (readFile disk filename buffer size).2 := by
  unfold readFileWrites readFile
  cases lookup disk filename with
  | none => rfl
  | some i =>
      dsimp only
      split
      · exact readLoopWrites_value ..
      · rfl

/-! ## Where they go -/

theorem readLoopWrites_within (storage : Storage) (inode : Inode) (readSize fuel read : Nat) :
    Writes.Within readSize (readLoopWrites storage inode readSize fuel read) := by
  induction fuel generalizing read with
  | zero => exact Writes.Within.nil readSize
  | succ fuel ih =>
      rw [readLoopWrites]
      by_cases more : read < readSize
      · rw [if_pos more]
        cases inode.blocks (read / blockSize) with
        | none => exact Writes.Within.nil readSize
        | some b =>
            apply Writes.within_append.mpr
            constructor
            · have inBlock : read % blockSize < blockSize := Nat.mod_lt _ (by decide)
              rw [memcpyWrites_eq_span, Writes.within_span (by omega)]
              omega
            · exact ih _
      · rw [if_neg more]
        exact Writes.Within.nil readSize

theorem readFileWrites_within (disk : Disk) (filename : FileName) (size : Nat) :
    Writes.Within size (readFileWrites disk filename size) := by
  unfold readFileWrites
  cases lookup disk filename with
  | none => exact Writes.Within.nil size
  | some i =>
      dsimp only
      split
      · intro write member
        have below := readLoopWrites_within _ _ _ _ _ write member
        split at below
        · omega
        · exact below
      · exact Writes.Within.nil size

/-- The file a name leads to is shorter than the buffer or may not be read. -/
def ReadsShort (disk : Disk) (filename : FileName) : Prop :=
  ∀ i, lookup disk filename = some i →
    checkPermissions
      (disk.inodeTable ((disk.rootDirectory i).inodeNumber - 1)).permissions 0 = true →
    (disk.inodeTable ((disk.rootDirectory i).inodeNumber - 1)).size < readBufferSize

theorem readBranchWrites_within_iff {disk : Disk} (invariant : Invariant disk)
    (filename : FileName) (buffer : Bytes) :
    Writes.Within readBufferSize (readBranchWrites disk filename buffer) ↔
      ReadsShort disk filename := by
  have filled := readFileWrites_within disk filename readBufferSize
  rw [readBranchWrites, Writes.within_append, and_iff_right filled, ReadsShort]
  cases scan : lookup disk filename with
  | none =>
      rw [(perform_missing scan buffer readBufferSize 0).2.2.2.2]
      apply iff_of_true (Writes.Within.nil _)
      intro i found
      cases found
  | some i =>
      obtain ⟨k, found⟩ := invariant.found scan
      have inode : (disk.rootDirectory i).inodeNumber - 1 = k := by
        rw [found.number, Nat.add_sub_cancel]
      cases permitted : checkPermissions (disk.inodeTable k).permissions 0 with
      | false =>
          rw [readFile_refused found permitted buffer readBufferSize]
          apply iff_of_true (Writes.Within.nil _)
          intro i' same readable
          cases same
          rw [inode, permitted] at readable
          cases readable
      | true =>
          obtain ⟨c, _, occupied, fits⟩ := invariant.occupied found
          obtain ⟨delivered, result, _⟩ :=
            readFile_found invariant found permitted buffer readBufferSize
          have length : (contents disk k).length = disk.size k := contents_length occupied fits
          rw [result, length]
          dsimp only
          rw [Writes.within_cons, and_iff_left (Writes.Within.nil _)]
          constructor
          · intro below i' same _
            cases same
            rw [inode]
            have short : disk.size k < readBufferSize := by omega
            exact short
          · intro short
            have below := short i rfl (by rw [inode, permitted])
            rw [inode] at below
            have small : disk.size k < readBufferSize := below
            omega

/-! ## Runs of the shell -/

theorem runLine_invariant {disk : Disk} (invariant : Invariant disk) (entry : Entry) :
    Invariant (runLine disk entry) := by
  unfold runLine
  cases entry.command with
  | none => exact invariant
  | some operation => exact perform_invariant invariant operation

def LineReadsShort (disk : Disk) (entry : Entry) : Prop :=
  ∀ filename buffer size, entry.command = some (.readFile filename buffer size) →
    ReadsShort disk filename

theorem lineWrites_within_iff {disk : Disk} (invariant : Invariant disk) (entry : Entry) :
    Writes.Within readBufferSize (lineWrites disk entry) ↔ LineReadsShort disk entry := by
  unfold lineWrites LineReadsShort
  split
  · rename_i filename buffer size asked
    rw [readBranchWrites_within_iff invariant filename buffer]
    constructor
    · intro short filename' buffer' size' asked'
      rw [asked] at asked'
      cases asked'
      exact short
    · exact fun short => short filename buffer size asked
  · rename_i other
    apply iff_of_true (Writes.Within.nil _)
    intro filename buffer size asked
    exact absurd asked (other filename buffer size)

/-- In every run of the shell's file commands all stores of the read branch are inside its
array exactly when every `file read` names a file of less than 128 bytes, or none that it
may read. -/
theorem file_read_in_bounds_iff {first last : Disk} {trace : List (Transition Disk Entry)}
    (initial : fileShell.initial first) (run : fileShell.Trace first trace last) :
    (∀ transition ∈ trace,
        Writes.Within readBufferSize (lineWrites transition.before transition.action)) ↔
      ∀ transition ∈ trace, LineReadsShort transition.before transition.action := by
  obtain ⟨before, rfl⟩ := initial
  apply run.meets_iff Invariant
    (fun transition =>
      Writes.Within readBufferSize (lineWrites transition.before transition.action))
    LineReadsShort _ (formatDisk_invariant before)
  intro disk entry next invariant taken
  cases Option.some.inj taken
  exact ⟨lineWrites_within_iff invariant entry, fun _ => runLine_invariant invariant entry⟩

def makeLine : Text :=
  ⟨['f', 'i', 'l', 'e', ' ', 'm', 'a', 'k', 'e', ' ', 'a'].map code,
    by decide +kernel, by decide +kernel⟩

/-- 100 times `x` is appended. -/
def appendLine : Text :=
  ⟨['f', 'i', 'l', 'e', ' ', 'a', 'p', 'p', 'e', 'n', 'd', ' ', 'a', ' '].map code ++
    List.replicate 100 120, by decide +kernel, by decide +kernel⟩

def readLine : Text :=
  ⟨['f', 'i', 'l', 'e', ' ', 'r', 'e', 'a', 'd', ' ', 'a'].map code,
    by decide +kernel, by decide +kernel⟩

def noBytes : Bytes := fun _ => 0

/-- One append of 100 bytes leaves room for the terminator. -/
theorem file_read_in_bounds_iff_once : ∃ trace last,
    fileShell.record (formatDisk zeroDisk)
      [⟨makeLine, noBytes⟩, ⟨appendLine, noBytes⟩, ⟨readLine, noBytes⟩] = some (trace, last) ∧
    ((∀ transition ∈ trace,
        Writes.Within readBufferSize (lineWrites transition.before transition.action)) ↔
      ∀ transition ∈ trace, LineReadsShort transition.before transition.action) :=
  ⟨_, _, rfl, file_read_in_bounds_iff ⟨zeroDisk, rfl⟩
    (.cons rfl (.cons rfl (.cons rfl (.nil _))))⟩

/-- Two appends of 100 bytes, and the terminator goes to index 128. -/
theorem file_read_out_of_bounds : ¬ ∀ first trace last, fileShell.initial first →
    fileShell.Trace first trace last → ∀ transition ∈ trace,
      Writes.Within readBufferSize (lineWrites transition.before transition.action) := by
  intro always
  have runs : (fileShell.record (formatDisk zeroDisk)
      [⟨makeLine, noBytes⟩, ⟨appendLine, noBytes⟩, ⟨appendLine, noBytes⟩,
        ⟨readLine, noBytes⟩]).any fun run =>
        run.1.any fun transition => decide (¬ Writes.Within readBufferSize
          (lineWrites transition.before transition.action)) := by
    decide +kernel
  obtain ⟨⟨trace, last⟩, recorded, checked⟩ := (Option.any_eq_true ..).mp runs
  obtain ⟨transition, member, outside⟩ := List.any_eq_true.mp checked
  exact of_decide_eq_true outside
    (always _ trace last ⟨zeroDisk, rfl⟩ (System.trace_of_record recorded) transition member)

end ApnaOS.Shell
