import ApnaOS.FileSystem.Lengths
import ApnaOS.FileSystem.Refinement

/-!
# The file system as a catalog

A catalog holds in each slot a file, the number of its inode and how many blocks it has.  It
determines what every call returns: where the blocks lie and what the storage held before is
not seen by a caller.
-/

set_option autoImplicit false

namespace ApnaOS.FileSystem

open ApnaOS.Lib ApnaOS.StringOps
open Function (update update_self update_of_ne)

structure Record where
  inode : Nat
  file : File
  held : Nat
  deriving DecidableEq

abbrev Catalog := Nat → Option Record

/-- What a caller learns: the result, and the bytes that `read_file` delivers. -/
structure Answer where
  result : Option Nat
  bytes : List Byte

def Answer.failed : Answer := ⟨none, []⟩

namespace Record

def current (record : Record) : Nat :=
  max ((record.file.contents.length + blockSize - 1) / blockSize) 1

def empty (record : Record) : Nat := maxBlocksPerFile - record.held

def writable (record : Record) (size : Nat) : Nat :=
  min (min size maxSize) ((record.current + record.empty) * blockSize)

def write (record : Record) (buffer : Bytes) (size : Nat) : Record where
  inode := record.inode
  file := { record.file with contents := Directory.firstBytes buffer (record.writable size) }
  held := record.held +
    min ((min size maxSize + blockSize - 1) / blockSize - record.current) record.empty

def appendable (record : Record) (size : Nat) : Nat :=
  min (min size (maxSize - record.file.contents.length))
    (spaceLeftInLast record.file.contents.length + record.empty * blockSize)

def append (record : Record) (buffer : Bytes) (size : Nat) : Record where
  inode := record.inode
  file :=
    { record.file with
      contents := record.file.contents ++ Directory.firstBytes buffer (record.appendable size) }
  held := record.held +
    min ((min size (maxSize - record.file.contents.length) -
      spaceLeftInLast record.file.contents.length + blockSize - 1) / blockSize) record.empty

def chmod (record : Record) (newPermissions : UInt16) : Record :=
  { record with file := { record.file with permissions := newPermissions } }

end Record

namespace Catalog

def empty : Catalog := fun _ => none

def find (catalog : Catalog) (name : List Byte) : Option Nat :=
  firstIndex maxFiles fun i => (catalog i).any fun record => decide (record.file.name = name)

def uses (catalog : Catalog) (k : Nat) : Bool :=
  (List.range maxFiles).any fun i => (catalog i).any fun record => decide (record.inode = k)

def freeInode (catalog : Catalog) : Option Nat := firstIndex maxFiles fun k => !catalog.uses k

def freeSlot (catalog : Catalog) : Option Nat :=
  firstIndex maxFiles fun i => (catalog i).isNone

/-- The record with a name is replaced, or nothing is found. -/
def onRecord (catalog : Catalog) (name : List Byte) (act : Record → Answer × Option Record) :
    Answer × Catalog :=
  match catalog.find name with
  | none => (.failed, catalog)
  | some i =>
      match catalog i with
      | none => (.failed, catalog)
      | some record => ((act record).1, update catalog i (act record).2)

/-- A refusal leaves the record as it is. -/
def guarded (permitted : UInt16 → Bool) (act : Record → Answer × Option Record)
    (record : Record) : Answer × Option Record :=
  if permitted record.file.permissions then act record else (.failed, some record)

def createFile (catalog : Catalog) (name : List Byte) : Answer × Catalog :=
  match catalog.freeInode, catalog.freeSlot with
  | some k, some i => (⟨some k, []⟩, update catalog i (some ⟨k, ⟨name, [], 0b111⟩, 1⟩))
  | _, _ => (.failed, catalog)

def writeFile (catalog : Catalog) (name : List Byte) (buffer : Bytes) (size : Nat) :
    Answer × Catalog :=
  catalog.onRecord name <| guarded (checkPermissions · 1) fun record =>
    (⟨some (record.writable size), []⟩, some (record.write buffer size))

def appendToFile (catalog : Catalog) (name : List Byte) (buffer : Bytes) (size : Nat) :
    Answer × Catalog :=
  catalog.onRecord name <| guarded (checkPermissions · 1) fun record =>
    if maxSize ≤ record.file.contents.length then (.failed, some record)
    else (⟨some (record.appendable size), []⟩, some (record.append buffer size))

def readFile (catalog : Catalog) (name : List Byte) (size : Nat) : Answer × Catalog :=
  catalog.onRecord name <| guarded (checkPermissions · 0) fun record =>
    (⟨some (min size record.file.contents.length), record.file.contents.take size⟩, some record)

def deleteFile (catalog : Catalog) (name : List Byte) : Answer × Catalog :=
  catalog.onRecord name <| guarded (checkPermissions · 1) fun _ => (⟨some 0, []⟩, none)

def chmodFile (catalog : Catalog) (name : List Byte) (newPermissions : UInt16) :
    Answer × Catalog :=
  catalog.onRecord name fun record => (⟨some 0, []⟩, some (record.chmod newPermissions))

def perform (catalog : Catalog) : Operation → Answer × Catalog
  | .createFile filename => catalog.createFile filename.chars
  | .writeFile filename buffer size => catalog.writeFile filename.chars buffer size
  | .appendToFile filename buffer size => catalog.appendToFile filename.chars buffer size
  | .readFile filename _ size => catalog.readFile filename.chars size
  | .deleteFile filename => catalog.deleteFile filename.chars
  | .chmodFile filename newPermissions => catalog.chmodFile filename.chars newPermissions

def answers (catalog : Catalog) : List Operation → List Answer
  | [] => []
  | operation :: rest => (catalog.perform operation).1 :: (catalog.perform operation).2.answers rest

end Catalog

/-! ## The catalog of a disk -/

def catalogOf (disk : Disk) : Catalog := fun i =>
  (directoryOf disk i).map fun file =>
    ⟨disk.entryNumber i - 1, file, ownedBlocks disk (disk.entryNumber i - 1)⟩

/-- What a call of the code tells its caller. -/
def answer (disk : Disk) (operation : Operation) : Answer where
  result := (perform disk operation).1
  bytes :=
    match operation with
    | .readFile filename buffer size =>
        Directory.firstBytes (readFile disk filename buffer size).2
          ((readFile disk filename buffer size).1.getD 0)
    | _ => []

def answers (disk : Disk) : List Operation → List Answer
  | [] => []
  | operation :: rest => answer disk operation :: answers (perform disk operation).2 rest

/-! ## Finding and choosing -/

def recordOf (disk : Disk) (i k : Nat) : Record :=
  ⟨k, fileOf disk (disk.rootDirectory i) k, ownedBlocks disk k⟩

theorem catalogOf_occupied {disk : Disk} {i k : Nat} (bound : i < maxFiles)
    (number : (disk.rootDirectory i).inodeNumber = k + 1) :
    catalogOf disk i = some (recordOf disk i k) := by
  rw [catalogOf, directoryOf_occupied bound number, Disk.entryNumber, number]
  rfl

theorem catalogOf_eq_none_iff {disk : Disk} {i : Nat} (bound : i < maxFiles) :
    catalogOf disk i = none ↔ (disk.rootDirectory i).inodeNumber = 0 := by
  rw [catalogOf, Option.map_eq_none_iff, directoryOf_eq_none_iff bound]

theorem catalogOf_format (disk : Disk) : catalogOf (formatDisk disk) = Catalog.empty := by
  funext i
  rw [catalogOf, directoryOf_format]
  rfl

theorem find_catalogOf {disk : Disk} (invariant : Invariant disk) (filename : FileName) :
    (catalogOf disk).find filename.chars = lookup disk filename := by
  apply Option.ext
  intro i
  rw [Catalog.find, firstIndex_eq_some_iff, lookup_eq_some_iff invariant]
  have named : ∀ j, ((catalogOf disk j).any fun record =>
      decide (record.file.name = filename.chars)) = true ↔
        ∃ file, directoryOf disk j = some file ∧ file.name = filename.chars := by
    intro j
    rw [catalogOf, Option.any_map, Option.any_eq_true]
    simp only [decide_eq_true_eq]
  constructor
  · rintro ⟨bound, matched, first⟩
    obtain ⟨file, holds, same⟩ := (named i).mp matched
    refine ⟨file, holds, same, ?_⟩
    intro j other lower holds' same'
    exact absurd ((named j).mpr ⟨other, holds', same'⟩) (Bool.eq_false_iff.mp (first j lower))
  · rintro ⟨file, finds⟩
    obtain ⟨k, bound, _⟩ := directoryOf_eq_some invariant finds.holds
    refine ⟨bound, (named i).mpr ⟨file, finds.holds, finds.named⟩, ?_⟩
    intro j lower
    rw [Bool.eq_false_iff]
    intro matched
    obtain ⟨other, holds, same⟩ := (named j).mp matched
    exact finds.first j other lower holds same

theorem onRecord_missing {disk : Disk} (invariant : Invariant disk) {filename : FileName}
    (missing : lookup disk filename = none) (act : Record → Answer × Option Record) :
    (catalogOf disk).onRecord filename.chars act = (.failed, catalogOf disk) := by
  rw [Catalog.onRecord, find_catalogOf invariant, missing]

theorem onRecord_found {disk : Disk} (invariant : Invariant disk) {filename : FileName} {i k : Nat}
    (found : Found disk filename i k) (act : Record → Answer × Option Record) :
    (catalogOf disk).onRecord filename.chars act =
      ((act (recordOf disk i k)).1, update (catalogOf disk) i (act (recordOf disk i k)).2) := by
  rw [Catalog.onRecord, find_catalogOf invariant, found.scan]
  dsimp only
  rw [catalogOf_occupied found.entry found.number]

theorem uses_catalogOf {disk : Disk} (invariant : Invariant disk) {k : Nat} (file : k < maxFiles) :
    (catalogOf disk).uses k = true ↔ disk.number k ≠ 0 := by
  rw [Catalog.uses, List.any_eq_true]
  constructor
  · rintro ⟨i, member, used⟩
    obtain ⟨record, holds, inode⟩ := (Option.any_eq_true ..).mp used
    obtain ⟨file', holds', rfl⟩ := Option.map_eq_some_iff.mp holds
    obtain ⟨k', _, _, number, live, _⟩ := directoryOf_eq_some invariant holds'
    have same : k' = k := by
      have inode' := of_decide_eq_true inode
      rw [Disk.entryNumber, number, Nat.add_sub_cancel] at inode'
      exact inode'
    rw [← same, live]
    exact Nat.succ_ne_zero k'
  · intro live
    obtain ⟨i, bound, number⟩ := invariant.directory.named k file live
    refine ⟨i, List.mem_range.mpr bound, ?_⟩
    rw [catalogOf_occupied bound number]
    exact decide_eq_true rfl

theorem freeInode_catalogOf {disk : Disk} (invariant : Invariant disk) :
    (catalogOf disk).freeInode = firstIndex maxFiles fun k => decide (disk.number k = 0) := by
  apply firstIndex_congr
  intro k file
  rw [Bool.eq_iff_iff, Bool.not_eq_true', ← Bool.not_eq_true, uses_catalogOf invariant file,
    not_not, decide_eq_true_iff]

theorem freeSlot_catalogOf (disk : Disk) :
    (catalogOf disk).freeSlot = firstIndex maxFiles fun i => decide (disk.entryNumber i = 0) := by
  apply firstIndex_congr
  intro i bound
  rw [Bool.eq_iff_iff, Option.isNone_iff_eq_none, decide_eq_true_iff, catalogOf_eq_none_iff bound]
  rfl

/-! ## Each call -/

theorem catalogOf_update {disk after : Disk} (invariant : Invariant disk) {i : Nat}
    {record : Option Record}
    (directory : directoryOf after = update (directoryOf disk) i (record.map Record.file))
    (here : ∀ r, record = some r →
      after.entryNumber i - 1 = r.inode ∧ ownedBlocks after r.inode = r.held)
    (elsewhere : ∀ i' k', i' ≠ i → i' < maxFiles → disk.entryNumber i' = k' + 1 →
      disk.number k' = k' + 1 →
      after.entryNumber i' = k' + 1 ∧ ownedBlocks after k' = ownedBlocks disk k') :
    catalogOf after = update (catalogOf disk) i record := by
  funext i'
  rw [catalogOf, directory]
  by_cases same : i' = i
  · subst same
    rw [update_self, update_self]
    cases record with
    | none => rfl
    | some r =>
        obtain ⟨inode, held⟩ := here r rfl
        rw [inode, Option.map_some, Option.map_some, held]
  · rw [update_of_ne same, update_of_ne same, catalogOf]
    cases holds : directoryOf disk i' with
    | none => rfl
    | some file =>
        obtain ⟨k', bound, _, number, live, _⟩ := directoryOf_eq_some invariant holds
        obtain ⟨number', held⟩ := elsewhere i' k' same bound number live
        have entry : disk.entryNumber i' = k' + 1 := number
        rw [number', entry, Nat.add_sub_cancel, held]

theorem ownedBlocks_congr {disk after : Disk} {k : Nat} (same : after.blocks k = disk.blocks k) :
    ownedBlocks after k = ownedBlocks disk k := by
  rw [ownedBlocks, ownedBlocks, same]

theorem Stored.catalog {disk after : Disk} {filename : FileName} {i k start upto : Nat}
    {buffer : Bytes} {record : Record} (invariant : Invariant disk)
    (found : Found disk filename i k) (outcome : Stored disk k buffer start upto after)
    (directory : directoryOf after = update (directoryOf disk) i (some record.file))
    (inode : record.inode = k) (held : ownedBlocks after k = record.held) :
    catalogOf after = update (catalogOf disk) i (some record) := by
  obtain ⟨blocks, bitmap, freeBlocks, storage, c, rfl, _⟩ := outcome
  apply catalogOf_update invariant directory
  · rintro r ⟨⟩
    rw [inode]
    refine ⟨?_, held⟩
    exact Nat.sub_eq_of_eq_add found.number
  · intro i' k' different bound number _
    refine ⟨number, ownedBlocks_congr ?_⟩
    have column : (stored disk k blocks bitmap freeBlocks storage upto).blocks =
        update disk.blocks k blocks := blocks_setInode disk k _
    rw [column, update_of_ne (found.other invariant different bound number)]

/-! ### write_file -/

theorem writeFile_blocks {disk : Disk} {filename : FileName} {i k : Nat}
    (found : Found disk filename i k)
    (permitted : checkPermissions (disk.inodeTable k).permissions 1 = true) (buffer : Bytes)
    (size : Nat) : (writeFile disk filename buffer size).2.blocks k =
      (reserveForWrite disk k size).2.blocks k := by
  simp only [writeFile, found.scan, found.number, Nat.add_sub_cancel, permitted, if_true]
  simp [Disk.blocks, Disk.setInode]

theorem recordOf_length {disk : Disk} {filename : FileName} {i k : Nat}
    (invariant : Invariant disk) (found : Found disk filename i k) :
    (recordOf disk i k).file.contents.length = disk.size k := by
  obtain ⟨c, _, occupied, fits⟩ := invariant.occupied found
  exact contents_length occupied fits

theorem writeFile_catalog {disk : Disk} {filename : FileName} {i k : Nat}
    (invariant : Invariant disk) (found : Found disk filename i k)
    (permitted : checkPermissions (disk.inodeTable k).permissions 1 = true) (buffer : Bytes)
    (size : Nat) :
    (writeFile disk filename buffer size).1 = some ((recordOf disk i k).writable size) ∧
      catalogOf (writeFile disk filename buffer size).2 =
        update (catalogOf disk) i (some ((recordOf disk i k).write buffer size)) := by
  obtain ⟨c, one, occupied, fits⟩ := invariant.occupied found
  obtain ⟨written, after, amount, result, outcome⟩ :=
    writeFile_found invariant found permitted one occupied fits buffer size
  obtain ⟨grown, added, reserved, count, blocks, _, _, rfl, occupied', _⟩ :=
    reserveForWrite_grown size found.inode occupied invariant.blocks
  have length := recordOf_length invariant found
  have owned : ownedBlocks disk k = c := occupied.ownedBlocks
  have current : (recordOf disk i k).current = currentBlocks disk k := by
    rw [Record.current, length]
    rfl
  have empty : (recordOf disk i k).empty = maxBlocksPerFile - c := by
    rw [← owned]
    rfl
  have all : written = (recordOf disk i k).writable size := by
    rw [amount, Record.writable, current, empty]
  have slots := writeFile_blocks found permitted buffer size
  rw [result, reserved, blocks_withBlocks, update_self] at slots
  have held : ownedBlocks after k = ((recordOf disk i k).write buffer size).held := by
    have prefixed : SlotPrefix (after.blocks k) (c + added) := slots ▸ occupied'
    rw [prefixed.ownedBlocks, count, Record.write, current, empty]
    exact congrArg (· + _) owned.symm
  rw [result]
  refine ⟨congrArg some all, outcome.catalog invariant found ?_ rfl held⟩
  rw [outcome.directory invariant found (Nat.zero_le _) (Nat.zero_le _), List.take_zero,
    List.nil_append, Nat.sub_zero, all]
  rfl

/-! ### append_to_file -/

theorem appendToFile_blocks {disk : Disk} {filename : FileName} {i k : Nat}
    (found : Found disk filename i k)
    (permitted : checkPermissions (disk.inodeTable k).permissions 1 = true)
    (below : disk.size k < maxSize) (buffer : Bytes) (size : Nat) :
    (appendToFile disk filename buffer size).2.blocks k =
      (reserveForAppend disk k size).2.blocks k := by
  have room : ¬ (disk.inodeTable k).size ≥ maxSize := Nat.not_le.mpr below
  simp only [appendToFile, found.scan, found.number, Nat.add_sub_cancel, permitted, if_true,
    if_neg room]
  simp [Disk.blocks, Disk.setInode]

theorem appendToFile_catalog {disk : Disk} {filename : FileName} {i k : Nat}
    (invariant : Invariant disk) (found : Found disk filename i k)
    (permitted : checkPermissions (disk.inodeTable k).permissions 1 = true)
    (below : disk.size k < maxSize) (buffer : Bytes) (size : Nat) :
    (appendToFile disk filename buffer size).1 = some ((recordOf disk i k).appendable size) ∧
      catalogOf (appendToFile disk filename buffer size).2 =
        update (catalogOf disk) i (some ((recordOf disk i k).append buffer size)) := by
  obtain ⟨c, one, occupied, fits⟩ := invariant.occupied found
  obtain ⟨written, after, amount, result, outcome⟩ :=
    appendToFile_found invariant found permitted below one occupied fits buffer size
  obtain ⟨grown, added, reserved, count, blocks, _, _, rfl, occupied', _⟩ :=
    reserveForAppend_grown size found.inode occupied invariant.blocks
  have length := recordOf_length invariant found
  have owned : ownedBlocks disk k = c := occupied.ownedBlocks
  have empty : (recordOf disk i k).empty = maxBlocksPerFile - c := by
    rw [← owned]
    rfl
  have all : written = (recordOf disk i k).appendable size := by
    rw [amount, Record.appendable, length, empty]
  have slots := appendToFile_blocks found permitted below buffer size
  rw [result, reserved, blocks_withBlocks, update_self] at slots
  have held : ownedBlocks after k = ((recordOf disk i k).append buffer size).held := by
    have prefixed : SlotPrefix (after.blocks k) (c + added) := slots ▸ occupied'
    rw [prefixed.ownedBlocks, count, Record.append, length, empty]
    exact congrArg (· + _) owned.symm
  rw [result]
  refine ⟨congrArg some all, outcome.catalog invariant found ?_ rfl held⟩
  have whole : (contents disk k).take (disk.size k) = contents disk k :=
    List.take_of_length_le (Nat.le_of_eq length)
  rw [outcome.directory invariant found (Nat.le_refl _) (Nat.le_add_right _ _), whole,
    Nat.add_sub_cancel_left, all]
  rfl

/-! ### delete_file, chmod_file and create_file -/

theorem Deleted.catalog {disk after : Disk} {filename : FileName} {i k : Nat}
    (invariant : Invariant disk) (found : Found disk filename i k)
    (outcome : Deleted disk k i after) :
    catalogOf after = update (catalogOf disk) i none := by
  have directory := outcome.directory invariant found
  obtain ⟨blocks, bitmap, freeBlocks, rfl, _⟩ := outcome
  apply catalogOf_update invariant directory
  · rintro r ⟨⟩
  · intro i' k' different bound number _
    have column : (deleted disk k i blocks bitmap freeBlocks).blocks =
        update disk.blocks k blocks := blocks_setInode disk k _
    refine ⟨?_, ownedBlocks_congr ?_⟩
    · rw [← number]
      simp [deleted, Disk.entryNumber, different]
    · rw [column, update_of_ne (found.other invariant different bound number)]

theorem chmod_catalog {disk : Disk} {filename : FileName} {i k : Nat} (invariant : Invariant disk)
    (found : Found disk filename i k) (newPermissions : UInt16) :
    catalogOf (disk.setInode k { disk.inodeTable k with permissions := newPermissions }) =
      update (catalogOf disk) i (some ((recordOf disk i k).chmod newPermissions)) := by
  have column : (disk.setInode k
      { disk.inodeTable k with permissions := newPermissions }).blocks = disk.blocks := by
    rw [blocks_setInode]
    exact Function.update_eq_self k disk.blocks
  apply catalogOf_update invariant (chmod_directory invariant found newPermissions)
  · rintro r ⟨⟩
    refine ⟨Nat.sub_eq_of_eq_add found.number, ?_⟩
    exact ownedBlocks_congr (congrFun column k)
  · intro i' k' _ _ number _
    exact ⟨number, ownedBlocks_congr (congrFun column k')⟩

theorem created_catalog {disk : Disk} {k i b : Nat} (invariant : Invariant disk)
    (chosen : Chosen disk k i b) (filename : FileName) :
    catalogOf (created disk k i b filename) =
      update (catalogOf disk) i (some ⟨k, ⟨filename.chars, [], 0b111⟩, 1⟩) := by
  obtain ⟨⟨inode, free⟩, ⟨entry, vacant⟩, _⟩ := chosen.free
  have column : (created disk k i b filename).blocks =
      update disk.blocks k (update (disk.blocks k) 0 (some b)) := blocks_setInode disk k _
  apply catalogOf_update invariant (created_directory invariant chosen filename)
  · rintro r ⟨⟩
    constructor
    · simp [created, Disk.entryNumber]
    · -- A free inode holds no block, the new one is its first.
      have nothing := invariant.files.free k inode free
      apply SlotPrefix.ownedBlocks
      refine ⟨Nat.le_add_left 1 3, fun j slot => ?_⟩
      rw [column, update_self]
      by_cases first : j = 0
      · subst first
        simp
      · rw [update_of_ne first, nothing j slot]
        simp [first]
  · intro i' k' different bound number live
    refine ⟨?_, ownedBlocks_congr ?_⟩
    · rw [← number]
      simp [created, Disk.entryNumber, different]
    · have other : k' ≠ k := by
        intro same
        rw [same, free] at live
        exact absurd live (Nat.succ_ne_zero k).symm
      rw [column, update_of_ne other]

/-! ## All calls -/

section Permissions

variable {disk : Disk} {filename : FileName} {i k : Nat} {permitted : UInt16 → Bool}

theorem onRecord_unchanged (invariant : Invariant disk) (found : Found disk filename i k)
    {act : Record → Answer × Option Record} {result : Answer}
    (same : act (recordOf disk i k) = (result, some (recordOf disk i k))) :
    (catalogOf disk).onRecord filename.chars act = (result, catalogOf disk) := by
  rw [onRecord_found invariant found, same, ← catalogOf_occupied found.entry found.number,
    Function.update_eq_self]

theorem onRecord_refused (invariant : Invariant disk) (found : Found disk filename i k)
    (refused : permitted (disk.inodeTable k).permissions = false)
    (act : Record → Answer × Option Record) :
    (catalogOf disk).onRecord filename.chars (Catalog.guarded permitted act) =
      (.failed, catalogOf disk) := by
  apply onRecord_unchanged invariant found
  exact if_neg (Bool.eq_false_iff.mp refused)

theorem onRecord_permitted (invariant : Invariant disk) (found : Found disk filename i k)
    (granted : permitted (disk.inodeTable k).permissions = true)
    (act : Record → Answer × Option Record) :
    (catalogOf disk).onRecord filename.chars (Catalog.guarded permitted act) =
      ((act (recordOf disk i k)).1, update (catalogOf disk) i (act (recordOf disk i k)).2) := by
  have acted : Catalog.guarded permitted act (recordOf disk i k) = act (recordOf disk i k) :=
    if_pos granted
  rw [onRecord_found invariant found, acted]

end Permissions

theorem perform_catalog {disk : Disk} (invariant : Invariant disk) (operation : Operation) :
    (answer disk operation, catalogOf (perform disk operation).2) =
      (catalogOf disk).perform operation := by
  cases operation with
  | createFile filename =>
      show (Answer.mk (createFile disk filename).1 [], catalogOf (createFile disk filename).2) = _
      rw [Catalog.perform, Catalog.createFile, freeInode_catalogOf invariant, freeSlot_catalogOf]
      cases scan : firstIndex maxFiles (fun k => decide (disk.number k = 0)) with
      | none =>
          rw [createFile_full scan]
          rfl
      | some k =>
          obtain ⟨i, b, chosen⟩ := invariant.chosen scan
          rw [createFile_chosen chosen, chosen.entry, created_catalog invariant chosen]
  | writeFile filename buffer size =>
      show (Answer.mk (writeFile disk filename buffer size).1 [],
        catalogOf (writeFile disk filename buffer size).2) = _
      rw [Catalog.perform, Catalog.writeFile]
      cases scan : lookup disk filename with
      | none =>
          rw [onRecord_missing invariant scan, (perform_missing scan buffer size 0).1]
          rfl
      | some i =>
          obtain ⟨k, found⟩ := invariant.found scan
          cases permitted : checkPermissions (disk.inodeTable k).permissions 1 with
          | false =>
              rw [(perform_refused found permitted buffer size).1,
                onRecord_refused invariant found permitted]
              rfl
          | true =>
              obtain ⟨result, after⟩ := writeFile_catalog invariant found permitted buffer size
              rw [result, after, onRecord_permitted invariant found permitted]
  | appendToFile filename buffer size =>
      show (Answer.mk (appendToFile disk filename buffer size).1 [],
        catalogOf (appendToFile disk filename buffer size).2) = _
      rw [Catalog.perform, Catalog.appendToFile]
      cases scan : lookup disk filename with
      | none =>
          rw [onRecord_missing invariant scan, (perform_missing scan buffer size 0).2.1]
          rfl
      | some i =>
          obtain ⟨k, found⟩ := invariant.found scan
          have length := recordOf_length invariant found
          cases permitted : checkPermissions (disk.inodeTable k).permissions 1 with
          | false =>
              rw [(perform_refused found permitted buffer size).2.1,
                onRecord_refused invariant found permitted]
              rfl
          | true =>
              rw [onRecord_permitted invariant found permitted, length]
              by_cases full : maxSize ≤ disk.size k
              · rw [if_pos full, appendToFile_full found full,
                  ← catalogOf_occupied found.entry found.number, Function.update_eq_self]
                rfl
              · obtain ⟨result, after⟩ := appendToFile_catalog invariant found permitted
                  (Nat.lt_of_not_le full) buffer size
                rw [if_neg full, result, after]
  | readFile filename buffer size =>
      rw [Catalog.perform, Catalog.readFile]
      cases scan : lookup disk filename with
      | none =>
          rw [onRecord_missing invariant scan, answer, perform]
          rw [(perform_missing scan buffer size 0).2.2.2.2]
          rfl
      | some i =>
          obtain ⟨k, found⟩ := invariant.found scan
          cases permitted : checkPermissions (disk.inodeTable k).permissions 0 with
          | false =>
              rw [onRecord_refused invariant found permitted, answer, perform]
              rw [readFile_refused found permitted buffer size]
              rfl
          | true =>
              obtain ⟨delivered, result, bytes, _⟩ :=
                readFile_found invariant found permitted buffer size
              rw [onRecord_permitted invariant found permitted, answer, perform, result,
                ← catalogOf_occupied found.entry found.number, Function.update_eq_self]
              dsimp only [Option.getD_some]
              rw [bytes]
              rfl
  | deleteFile filename =>
      show (Answer.mk (deleteFile disk filename).1 [], catalogOf (deleteFile disk filename).2) = _
      rw [Catalog.perform, Catalog.deleteFile]
      cases scan : lookup disk filename with
      | none =>
          rw [onRecord_missing invariant scan, (perform_missing scan (fun _ => 0) 0 0).2.2.1]
          rfl
      | some i =>
          obtain ⟨k, found⟩ := invariant.found scan
          cases permitted : checkPermissions (disk.inodeTable k).permissions 1 with
          | false =>
              rw [(perform_refused found permitted (fun _ => 0) 0).2.2,
                onRecord_refused invariant found permitted]
              rfl
          | true =>
              obtain ⟨after, result, outcome⟩ := deleteFile_found invariant found permitted
              rw [result, outcome.catalog invariant found,
                onRecord_permitted invariant found permitted]
  | chmodFile filename newPermissions =>
      show (Answer.mk (chmodFile disk filename newPermissions).1 [],
        catalogOf (chmodFile disk filename newPermissions).2) = _
      rw [Catalog.perform, Catalog.chmodFile]
      cases scan : lookup disk filename with
      | none =>
          rw [onRecord_missing invariant scan,
            (perform_missing scan (fun _ => 0) 0 newPermissions).2.2.2.1]
          rfl
      | some i =>
          obtain ⟨k, found⟩ := invariant.found scan
          rw [chmodFile_found found, chmod_catalog invariant found, onRecord_found invariant found]

theorem answers_catalog {disk : Disk} (invariant : Invariant disk) (operations : List Operation) :
    answers disk operations = (catalogOf disk).answers operations := by
  induction operations generalizing disk with
  | nil => rfl
  | cons operation rest ih =>
      have step := perform_catalog invariant operation
      rw [answers, Catalog.answers, ← step, ih (perform_invariant invariant operation)]

/-- What the callers of the file system see is determined by the catalog: after `format_disk`
every sequence of calls gets the answers of the empty catalog, and two states with one catalog
are never told apart. -/
theorem catalog_determines_answers :
    (∀ before operations, answers (formatDisk before) operations =
        Catalog.empty.answers operations) ∧
      ∀ disk other, fileSystem.Reachable disk → fileSystem.Reachable other →
        catalogOf disk = catalogOf other →
          ∀ operations, answers disk operations = answers other operations := by
  constructor
  · intro before operations
    rw [answers_catalog (formatDisk_invariant before), catalogOf_format]
  · intro disk other reachable reachable' same operations
    rw [answers_catalog (reachable_invariant reachable),
      answers_catalog (reachable_invariant reachable'), same]

def Catalog.performAll (catalog : Catalog) (operations : List Operation) : Catalog :=
  operations.foldl (fun catalog operation => (catalog.perform operation).2) catalog

theorem catalogOf_performAll {disk : Disk} (invariant : Invariant disk)
    (operations : List Operation) :
    catalogOf (performAll disk operations) = (catalogOf disk).performAll operations := by
  induction operations generalizing disk with
  | nil => rfl
  | cons operation rest ih =>
      have step := congrArg Prod.snd (perform_catalog invariant operation)
      rw [Catalog.performAll, List.foldl_cons, ← step]
      exact ih (perform_invariant invariant operation)

/-- `b` is made while `a` has two blocks, and `a` is made anew. -/
def detour : List Operation :=
  [.createFile nameA, .writeFile nameA (fun _ => 7) 5000, .createFile nameB, .deleteFile nameA,
    .createFile nameA]

def direct : List Operation := [.createFile nameA, .createFile nameB]

theorem catalogOf_detour (before other : Disk) :
    catalogOf (performAll (formatDisk before) detour) =
      catalogOf (performAll (formatDisk other) direct) := by
  funext i
  by_cases bound : i < maxFiles
  · rw [catalogOf_performAll (formatDisk_invariant before), catalogOf_format,
      catalogOf_performAll (formatDisk_invariant other), catalogOf_format]
    have slots : ∀ i, i < maxFiles →
        Catalog.empty.performAll detour i = Catalog.empty.performAll direct i := by
      decide +kernel
    exact slots i bound
  · rw [catalogOf, catalogOf, directoryOf, directoryOf, if_neg (fun inside => bound inside.1),
      if_neg (fun inside => bound inside.1), Option.map_none, Option.map_none]

/-- Two disks with one catalog on which `b` has different blocks, over a storage of zeros and
one of sevens. -/
theorem catalog_determines_answers_moved :
    ((performAll (formatDisk zeroDisk) detour).inodeTable 1).blocks 0 = some 2 ∧
      ((performAll (formatDisk { zeroDisk with storage := fun _ _ => 7 }) direct).inodeTable
        1).blocks 0 = some 1 ∧
      answers (performAll (formatDisk zeroDisk) detour)
          [.appendToFile nameB (fun _ => 5) 5000, .readFile nameB (fun _ => 0) 6000] =
        answers (performAll (formatDisk { zeroDisk with storage := fun _ _ => 7 }) direct)
          [.appendToFile nameB (fun _ => 5) 5000, .readFile nameB (fun _ => 0) 6000] :=
  ⟨by decide +kernel, by decide +kernel,
    catalog_determines_answers.2 _ _ (reachable_performAll zeroDisk detour)
      (reachable_performAll { zeroDisk with storage := fun _ _ => 7 } direct)
      (catalogOf_detour _ _) _⟩

end ApnaOS.FileSystem
