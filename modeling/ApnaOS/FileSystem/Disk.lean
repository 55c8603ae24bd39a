import ApnaOS.Keyboard.StringOps
import ApnaOS.Lib.Table
import ApnaOS.Lib.Transition

/-!
# The in-memory file system of filesystem.c

The five global tables form one `Disk`.  Arrays are functions on indices; the
loops of the code bound every index they produce.  A C `int` or `uint32_t` that
holds either `-1` or an index is an `Option Nat`, with `none` for `-1`.  Console
output is left out.

File names are shorter than `MAX_FILENAME_LEN`: a longer one makes `strncpy`
write past the entry, which the type `FileName` excludes.
-/

set_option autoImplicit false

namespace ApnaOS.FileSystem

open ApnaOS.Lib ApnaOS.StringOps
open Function (update)

def blockCount : Nat := 1024
def blockSize : Nat := 4096
def maxBlocksPerFile : Nat := 4
def maxFiles : Nat := 256
def maxFilenameLen : Nat := 255

structure Superblock where
  inodeCount : Nat
  blockCount : Nat
  freeInodes : Nat
  freeBlocks : Nat
  magic : Nat
  volumeName : Bytes

structure Inode where
  inodeNumber : Nat
  size : Nat
  blocks : Nat → Option Nat
  permissions : UInt16

structure DirectoryEntry where
  filename : Bytes
  inodeNumber : Nat

abbrev Storage := Nat → Bytes

structure Disk where
  sb : Superblock
  inodeTable : Nat → Inode
  rootDirectory : Nat → DirectoryEntry
  storage : Storage
  blockBitmap : Nat → Nat

/-- A NUL-free string that fits the `filename` array with its terminator. -/
structure FileName where
  chars : List Byte
  nul_free : ∀ c ∈ chars, c ≠ 0
  short : chars.length < maxFilenameLen

def FileName.bytes (name : FileName) : Bytes := fun i => name.chars.getD i 0

def literal (text : String) : Bytes :=
  fun i => (text.toList.map fun c => c.toNat.toUInt8).getD i 0

/-- `x--` on a `uint32_t`. -/
def decrement (x : Nat) : Nat := if x = 0 then 2 ^ 32 - 1 else x - 1

/-- `x++` on a `uint32_t`. -/
def increment (x : Nat) : Nat := if x = 2 ^ 32 - 1 then 0 else x + 1

def Disk.setInode (disk : Disk) (index : Nat) (inode : Inode) : Disk :=
  { disk with inodeTable := update disk.inodeTable index inode }

def Disk.setEntry (disk : Disk) (index : Nat) (entry : DirectoryEntry) : Disk :=
  { disk with rootDirectory := update disk.rootDirectory index entry }

def Disk.setFreeInodes (disk : Disk) (count : Nat) : Disk :=
  { disk with sb := { disk.sb with freeInodes := count } }

def Disk.setFreeBlocks (disk : Disk) (count : Nat) : Disk :=
  { disk with sb := { disk.sb with freeBlocks := count } }

def Disk.setBitmap (disk : Disk) (block value : Nat) : Disk :=
  { disk with blockBitmap := update disk.blockBitmap block value }

def formatDisk (disk : Disk) : Disk where
  sb :=
    { inodeCount := maxFiles
      blockCount := blockCount
      freeInodes := maxFiles
      freeBlocks := blockCount
      magic := 0xEF53
      volumeName := update (strncpy disk.sb.volumeName (literal "ApnaFS") 16) (16 - 1) 0 }
  inodeTable := fun i =>
    if i < maxFiles then
      { disk.inodeTable i with inodeNumber := 0, size := 0, blocks := fun _ => none }
    else disk.inodeTable i
  rootDirectory := fun i =>
    if i < maxFiles then { disk.rootDirectory i with inodeNumber := 0 }
    else disk.rootDirectory i
  storage := disk.storage
  blockBitmap := fun b => if b < blockCount then 0 else disk.blockBitmap b

/-! ## Allocation -/

def allocateInode (disk : Disk) : Option Nat × Disk :=
  match firstIndex maxFiles (fun i => decide ((disk.inodeTable i).inodeNumber = 0)) with
  | some i =>
      (some i,
        (disk.setInode i { disk.inodeTable i with inodeNumber := i + 1 }).setFreeInodes
          (decrement disk.sb.freeInodes))
  | none => (none, disk)

def allocateBlock (disk : Disk) : Option Nat × Disk :=
  match firstIndex blockCount (fun b => decide (disk.blockBitmap b = 0)) with
  | some b => (some b, (disk.setBitmap b 1).setFreeBlocks (decrement disk.sb.freeBlocks))
  | none => (none, disk)

def Disk.setSlot (disk : Disk) (inodeIndex slot : Nat) (block : Option Nat) : Disk :=
  disk.setInode inodeIndex
    { disk.inodeTable inodeIndex with
      blocks := update (disk.inodeTable inodeIndex).blocks slot block }

/-- The loop of `allocate_blocks` over the slots still to visit. -/
def allocateBlocksFrom (inodeIndex requiredBlocks : Nat) :
    List Nat → Nat → Disk → Nat × Disk
  | [], allocated, disk => (allocated, disk)
  | i :: rest, allocated, disk =>
      if allocated < requiredBlocks then
        match (disk.inodeTable inodeIndex).blocks i with
        | some _ => allocateBlocksFrom inodeIndex requiredBlocks rest allocated disk
        | none =>
            match allocateBlock disk with
            | (none, disk) => (allocated, disk)
            | (some newBlock, disk) =>
                allocateBlocksFrom inodeIndex requiredBlocks rest (allocated + 1)
                  (disk.setSlot inodeIndex i (some newBlock))
      else (allocated, disk)

def allocateBlocks (disk : Disk) (inodeIndex requiredBlocks : Nat) : Nat × Disk :=
  allocateBlocksFrom inodeIndex requiredBlocks (List.range maxBlocksPerFile) 0 disk

def checkPermissions (permissions : UInt16) (mode : Nat) : Bool :=
  match mode with
  | 0 => permissions &&& 0b100 != 0
  | 1 => permissions &&& 0b010 != 0
  | 2 => permissions &&& 0b001 != 0
  | _ => false

/-! ## Operations -/

/-- The scan every operation on an existing file makes: the first occupied entry
whose name compares equal. -/
def lookup (disk : Disk) (filename : FileName) : Option Nat :=
  firstIndex maxFiles fun i =>
    decide ((disk.rootDirectory i).inodeNumber ≠ 0) &&
      decide (strncmp (disk.rootDirectory i).filename filename.bytes maxFilenameLen = 0)

def chmodFile (disk : Disk) (filename : FileName) (newPermissions : UInt16) :
    Option Nat × Disk :=
  match lookup disk filename with
  | some i =>
      let inodeIndex := (disk.rootDirectory i).inodeNumber - 1
      (some 0,
        disk.setInode inodeIndex
          { disk.inodeTable inodeIndex with permissions := newPermissions })
  | none => (none, disk)

def createFile (disk : Disk) (filename : FileName) : Option Nat × Disk :=
  match allocateInode disk with
  | (none, disk) => (none, disk)
  | (some inodeIndex, disk) =>
      match allocateBlock disk with
      | (none, disk) =>
          (none, disk.setInode inodeIndex { disk.inodeTable inodeIndex with inodeNumber := 0 })
      | (some blockIndex, disk) =>
          let disk := disk.setInode inodeIndex
            { disk.inodeTable inodeIndex with
              size := 0
              blocks := update (disk.inodeTable inodeIndex).blocks 0 (some blockIndex)
              permissions := 0b111 }
          match firstIndex maxFiles (fun i => decide ((disk.rootDirectory i).inodeNumber = 0)) with
          | some i =>
              (some inodeIndex,
                disk.setEntry i
                  { filename := strncpy (disk.rootDirectory i).filename filename.bytes maxFilenameLen
                    inodeNumber := inodeIndex + 1 })
          | none => (none, disk)

/-- The loop of `delete_file` over the slots still to visit. -/
def freeSlots (inodeIndex : Nat) : List Nat → Disk → Disk
  | [], disk => disk
  | j :: rest, disk =>
      match (disk.inodeTable inodeIndex).blocks j with
      | some blockIndex =>
          freeSlots inodeIndex rest
            (((disk.setBitmap blockIndex 0).setFreeBlocks (increment disk.sb.freeBlocks)).setSlot
              inodeIndex j none)
      | none => freeSlots inodeIndex rest disk

def deleteFile (disk : Disk) (filename : FileName) : Option Nat × Disk :=
  match lookup disk filename with
  | some i =>
      let inodeIndex := (disk.rootDirectory i).inodeNumber - 1
      if checkPermissions (disk.inodeTable inodeIndex).permissions 1 then
        let disk := freeSlots inodeIndex (List.range maxBlocksPerFile) disk
        let disk := disk.setInode inodeIndex
          { disk.inodeTable inodeIndex with inodeNumber := 0, size := 0 }
        let disk := disk.setFreeInodes (increment disk.sb.freeInodes)
        (some 0,
          disk.setEntry i
            { inodeNumber := 0
              filename := memset (disk.rootDirectory i).filename 0 0 maxFilenameLen })
      else (none, disk)
  | none => (none, disk)

/-- The copy loop of `read_file`.  Every iteration copies at least one byte, so
`readSize` iterations are enough. -/
def readLoop (storage : Storage) (inode : Inode) (readSize : Nat) :
    Nat → Nat → Bytes → Nat × Bytes
  | 0, read, buffer => (read, buffer)
  | fuel + 1, read, buffer =>
      if read < readSize then
        let blockNumber := read / blockSize
        let offset := read % blockSize
        match inode.blocks blockNumber with
        | none => (read, buffer)
        | some blockIndex =>
            let chunk := min (blockSize - offset) (readSize - read)
            readLoop storage inode readSize fuel (read + chunk)
              (memcpy buffer read (storage blockIndex) offset chunk)
      else (read, buffer)

/-- The result and the caller's buffer afterwards; the disk is not changed. -/
def readFile (disk : Disk) (filename : FileName) (buffer : Bytes) (size : Nat) :
    Option Nat × Bytes :=
  match lookup disk filename with
  | some i =>
      let inode := disk.inodeTable ((disk.rootDirectory i).inodeNumber - 1)
      if checkPermissions inode.permissions 0 then
        let fileSize := inode.size
        let readSize := if size > fileSize then fileSize else size
        let (read, buffer) := readLoop disk.storage inode readSize readSize 0 buffer
        (some read, buffer)
      else (none, buffer)
  | none => (none, buffer)

def maxSize : Nat := maxBlocksPerFile * blockSize

/-- The part of `write_file` that reserves blocks: the size that will be written
and the disk with the new blocks. -/
def reserveForWrite (disk : Disk) (inodeIndex size : Nat) : Nat × Disk :=
  let writeSize := min size maxSize
  let currentBlocks := max (((disk.inodeTable inodeIndex).size + blockSize - 1) / blockSize) 1
  let totalBlocksNeeded := (writeSize + blockSize - 1) / blockSize
  let neededBlocks : Int := totalBlocksNeeded - currentBlocks
  if neededBlocks > 0 then
    let (allocated, disk) := allocateBlocks disk inodeIndex neededBlocks.toNat
    if allocated < neededBlocks then ((currentBlocks + allocated) * blockSize, disk)
    else (writeSize, disk)
  else (writeSize, disk)

/-- The copy loop of `write_file` over the slots still to visit. -/
def writeLoop (inode : Inode) (buffer : Bytes) (writeSize : Nat) :
    List Nat → Nat → Storage → Nat × Storage
  | [], written, storage => (written, storage)
  | j :: rest, written, storage =>
      if written < writeSize then
        match inode.blocks j with
        | none => (written, storage)
        | some blockIndex =>
            let chunk := min blockSize (writeSize - written)
            writeLoop inode buffer writeSize rest (written + chunk)
              (update storage blockIndex (memcpy (storage blockIndex) 0 buffer written chunk))
      else (written, storage)

def writeFile (disk : Disk) (filename : FileName) (buffer : Bytes) (size : Nat) :
    Option Nat × Disk :=
  match lookup disk filename with
  | some i =>
      let inodeIndex := (disk.rootDirectory i).inodeNumber - 1
      if checkPermissions (disk.inodeTable inodeIndex).permissions 1 then
        let (writeSize, disk) := reserveForWrite disk inodeIndex size
        let (written, storage) := writeLoop (disk.inodeTable inodeIndex) buffer writeSize
          (List.range maxBlocksPerFile) 0 disk.storage
        let disk := { disk with storage := storage }
        (some written,
          disk.setInode inodeIndex { disk.inodeTable inodeIndex with size := written })
      else (none, disk)
  | none => (none, disk)

/-- The part of `append_to_file` that reserves blocks: the size that will be
appended and the disk with the new blocks. -/
def reserveForAppend (disk : Disk) (inodeIndex size : Nat) : Nat × Disk :=
  let currentSize := (disk.inodeTable inodeIndex).size
  let appendSize := min size (maxSize - currentSize)
  let usedInLastBlock := currentSize % blockSize
  let spaceLeftInLast :=
    if usedInLastBlock = 0 ∧ currentSize > 0 then 0 else blockSize - usedInLastBlock
  let overflow := if appendSize > spaceLeftInLast then appendSize - spaceLeftInLast else 0
  let neededBlocks := (overflow + blockSize - 1) / blockSize
  if neededBlocks > 0 then
    let (allocated, disk) := allocateBlocks disk inodeIndex neededBlocks
    if allocated < neededBlocks then (spaceLeftInLast + allocated * blockSize, disk)
    else (appendSize, disk)
  else (appendSize, disk)

/-- The copy loop of `append_to_file`; `appendSize` iterations are enough. -/
def appendLoop (inode : Inode) (buffer : Bytes) (currentSize appendSize : Nat) :
    Nat → Nat → Storage → Nat × Storage
  | 0, written, storage => (written, storage)
  | fuel + 1, written, storage =>
      if written < appendSize then
        let offset := (currentSize + written) % blockSize
        let blockNumber := (currentSize + written) / blockSize
        match inode.blocks blockNumber with
        | none => (written, storage)
        | some blockIndex =>
            let chunk := min (blockSize - offset) (appendSize - written)
            appendLoop inode buffer currentSize appendSize fuel (written + chunk)
              (update storage blockIndex (memcpy (storage blockIndex) offset buffer written chunk))
      else (written, storage)

def appendToFile (disk : Disk) (filename : FileName) (buffer : Bytes) (size : Nat) :
    Option Nat × Disk :=
  match lookup disk filename with
  | some i =>
      let inodeIndex := (disk.rootDirectory i).inodeNumber - 1
      if checkPermissions (disk.inodeTable inodeIndex).permissions 1 then
        let currentSize := (disk.inodeTable inodeIndex).size
        if currentSize ≥ maxSize then (none, disk)
        else
          let (appendSize, disk) := reserveForAppend disk inodeIndex size
          let (written, storage) := appendLoop (disk.inodeTable inodeIndex) buffer currentSize
            appendSize appendSize 0 disk.storage
          let disk := { disk with storage := storage }
          (some written,
            disk.setInode inodeIndex
              { disk.inodeTable inodeIndex with
                size := (disk.inodeTable inodeIndex).size + written })
      else (none, disk)
  | none => (none, disk)

/-! ## Runs -/

inductive Operation where
  | createFile (filename : FileName)
  | writeFile (filename : FileName) (buffer : Bytes) (size : Nat)
  | appendToFile (filename : FileName) (buffer : Bytes) (size : Nat)
  | readFile (filename : FileName) (buffer : Bytes) (size : Nat)
  | deleteFile (filename : FileName)
  | chmodFile (filename : FileName) (newPermissions : UInt16)

def perform (disk : Disk) : Operation → Option Nat × Disk
  | .createFile filename => createFile disk filename
  | .writeFile filename buffer size => writeFile disk filename buffer size
  | .appendToFile filename buffer size => appendToFile disk filename buffer size
  | .readFile filename buffer size => ((readFile disk filename buffer size).1, disk)
  | .deleteFile filename => deleteFile disk filename
  | .chmodFile filename newPermissions => chmodFile disk filename newPermissions

/-- Every sequence of calls that starts with `format_disk`. -/
def fileSystem : System Disk Operation where
  initial disk := ∃ before, disk = formatDisk before
  step disk operation := some (perform disk operation).2

def performAll (disk : Disk) (operations : List Operation) : Disk :=
  operations.foldl (fun disk operation => (perform disk operation).2) disk

theorem reachable_performAll (before : Disk) (operations : List Operation) :
    fileSystem.Reachable (performAll (formatDisk before) operations) := by
  have extend : ∀ disk, fileSystem.Reachable disk →
      fileSystem.Reachable (performAll disk operations) := by
    induction operations with
    | nil => exact fun disk reachable => reachable
    | cons operation rest ih =>
        intro disk reachable
        have taken : fileSystem.step disk operation = some (perform disk operation).2 := rfl
        exact ih (perform disk operation).2 (reachable.step taken)
  exact extend (formatDisk before) (System.reachable_initial ⟨before, rfl⟩)

def zeroDisk : Disk where
  sb := ⟨0, 0, 0, 0, 0, fun _ => 0⟩
  inodeTable := fun _ => ⟨0, 0, fun _ => some 0, 0⟩
  rootDirectory := fun _ => ⟨fun _ => 0, 0⟩
  storage := fun _ _ => 0
  blockBitmap := fun _ => 0

def nameA : FileName := ⟨[97], by simp, by decide⟩
def nameB : FileName := ⟨[98], by simp, by decide⟩

end ApnaOS.FileSystem
