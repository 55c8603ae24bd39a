import ApnaOS.FileSystem.Consistency

/-!
# How much a write and an append take

Both functions ask for new blocks by the size of the file alone, while a file keeps
the blocks a longer write gave it.  A write or an append falls short exactly when
they ask for more blocks than the file has empty slots.
-/

set_option autoImplicit false

namespace ApnaOS.FileSystem

open ApnaOS.Lib ApnaOS.StringOps

def ownedBlocks (disk : Disk) (k : Nat) : Nat :=
  (List.range maxBlocksPerFile).countP fun j => (disk.blocks k j).isSome

/-- The blocks `write_file` asks for, beyond those that the size accounts for. -/
def blocksForWrite (disk : Disk) (k size : Nat) : Nat :=
  (min size maxSize + blockSize - 1) / blockSize - currentBlocks disk k

/-- The blocks `append_to_file` asks for, beyond the room in the last block. -/
def blocksForAppend (disk : Disk) (k size : Nat) : Nat :=
  (min size (maxSize - disk.size k) - spaceLeftInLast (disk.size k) + blockSize - 1) / blockSize

theorem SlotPrefix.countP_range {blocks : Nat → Option Nat} {c : Nat} (occupied : SlotPrefix blocks c)
    (n : Nat) (slots : n ≤ maxBlocksPerFile) :
    (List.range n).countP (fun j => (blocks j).isSome) = min n c := by
  induction n with
  | zero => simp
  | succ n ih =>
      have held : (blocks n).isSome = true ↔ n < c := by
        rw [← occupied.2 n (by omega), Option.isSome_iff_ne_none]
      rw [List.range_succ, List.countP_append, ih (by omega), List.countP_singleton]
      by_cases here : n < c
      · rw [if_pos (held.mpr here)]
        omega
      · rw [if_neg (fun holds => here (held.mp holds))]
        omega

theorem SlotPrefix.ownedBlocks {disk : Disk} {k c : Nat} (occupied : SlotPrefix (disk.blocks k) c) :
    ownedBlocks disk k = c := by
  rw [FileSystem.ownedBlocks, occupied.countP_range maxBlocksPerFile (Nat.le_refl _)]
  exact Nat.min_eq_right occupied.1

theorem Invariant.room {disk : Disk} (invariant : Invariant disk) {k : Nat} (file : k < maxFiles)
    (empty : ∃ j, j < maxBlocksPerFile ∧ (disk.inodeTable k).blocks j = none) :
    ∃ b, b < blockCount ∧ disk.blockBitmap b = 0 := by
  obtain ⟨j, slot, nothing⟩ := empty
  exact invariant.blocks.exists_free file slot nothing

theorem Found.written_all_iff {disk : Disk} {filename : FileName} {i k : Nat}
    (found : Found disk filename i k) (invariant : Invariant disk)
    (permitted : checkPermissions (disk.inodeTable k).permissions 1 = true) (buffer : Bytes)
    (size : Nat) :
    (writeFile disk filename buffer size).1 = some (min size maxSize) ↔
      blocksForWrite disk k size ≤ maxBlocksPerFile - ownedBlocks disk k := by
  obtain ⟨c, one, occupied, fits⟩ := invariant.occupied found
  obtain ⟨written, after, amount, result, _⟩ :=
    writeFile_found invariant found permitted one occupied fits buffer size
  rw [result, amount, occupied.ownedBlocks, blocksForWrite, Option.some.injEq]
  generalize min size maxSize = writeSize
  unfold blockSize
  omega

theorem Found.appended_all_iff {disk : Disk} {filename : FileName} {i k : Nat}
    (found : Found disk filename i k) (invariant : Invariant disk)
    (permitted : checkPermissions (disk.inodeTable k).permissions 1 = true)
    (below : disk.size k < maxSize) (buffer : Bytes) (size : Nat) :
    (appendToFile disk filename buffer size).1 = some (min size (maxSize - disk.size k)) ↔
      blocksForAppend disk k size ≤ maxBlocksPerFile - ownedBlocks disk k := by
  obtain ⟨c, one, occupied, fits⟩ := invariant.occupied found
  obtain ⟨written, after, amount, result, _⟩ :=
    appendToFile_found invariant found permitted below one occupied fits buffer size
  rw [result, amount, occupied.ownedBlocks, blocksForAppend, Option.some.injEq]
  generalize min size (maxSize - disk.size k) = appendSize
  unfold blockSize
  omega

/-- `write_file` writes all it can hold exactly when the blocks it asks for fit into the
empty slots of the file; free blocks never run out before these. -/
theorem writeFile_full_iff (disk : Disk) (reachable : fileSystem.Reachable disk)
    (filename : FileName) (i : Nat) (found : lookup disk filename = some i)
    (permitted : checkPermissions
      (disk.inodeTable ((disk.rootDirectory i).inodeNumber - 1)).permissions 1 = true) :
    (∀ (buffer : Bytes) (size : Nat),
      (writeFile disk filename buffer size).1 = some (min size maxSize) ↔
        blocksForWrite disk ((disk.rootDirectory i).inodeNumber - 1) size ≤
          maxBlocksPerFile - ownedBlocks disk ((disk.rootDirectory i).inodeNumber - 1)) ∧
    ∀ k, k < maxFiles → (∃ j, j < maxBlocksPerFile ∧ (disk.inodeTable k).blocks j = none) →
      ∃ b, b < blockCount ∧ disk.blockBitmap b = 0 := by
  have invariant := reachable_invariant reachable
  obtain ⟨k, here⟩ := invariant.found found
  rw [here.number, Nat.add_sub_cancel] at permitted ⊢
  exact ⟨here.written_all_iff invariant permitted, fun _ file => invariant.room file⟩

/-- The file `a` with this much written to it, one write after the other. -/
def writtenDisk (sizes : List Nat) : Disk :=
  performAll (formatDisk zeroDisk)
    (.createFile nameA :: sizes.map fun size => .writeFile nameA (fun _ => 7) size)

theorem writtenDisk_reachable (sizes : List Nat) : fileSystem.Reachable (writtenDisk sizes) :=
  reachable_performAll zeroDisk _

theorem writeFile_full_iff_after_two :
    ((writeFile (writtenDisk [16384, 1]) nameA (fun _ => 7) 4096).1 = some (min 4096 maxSize) ↔
      blocksForWrite (writtenDisk [16384, 1]) 0 4096 ≤
        maxBlocksPerFile - ownedBlocks (writtenDisk [16384, 1]) 0) ∧
    ((∃ j, j < maxBlocksPerFile ∧ ((writtenDisk [16384, 1]).inodeTable 3).blocks j = none) →
      ∃ b, b < blockCount ∧ (writtenDisk [16384, 1]).blockBitmap b = 0) := by
  have spec := writeFile_full_iff (writtenDisk [16384, 1]) (writtenDisk_reachable _) nameA 0
    (by decide +kernel) (by decide +kernel)
  have number : ((writtenDisk [16384, 1]).rootDirectory 0).inodeNumber = 1 := by decide +kernel
  rw [number] at spec
  exact ⟨spec.1 _ 4096, spec.2 3 (by decide)⟩

/-- Four blocks written, then one byte: the next long write stops after one block. -/
theorem long_short_long_write :
    fileSystem.Reachable (writtenDisk [16384, 1]) ∧
      lookup (writtenDisk [16384, 1]) nameA = some 0 ∧
      checkPermissions ((writtenDisk [16384, 1]).inodeTable 0).permissions 1 = true ∧
      (writeFile (writtenDisk [16384, 1]) nameA (fun _ => 7) 16384).1 = some 4096 ∧
      min 16384 maxSize = 16384 := by
  refine ⟨writtenDisk_reachable _, ?_, ?_, ?_, ?_⟩
  all_goals decide +kernel

/-- `append_to_file` appends all that the file can hold exactly when the blocks it asks
for fit into the empty slots of the file. -/
theorem appendToFile_full_iff (disk : Disk) (reachable : fileSystem.Reachable disk)
    (filename : FileName) (i : Nat) (found : lookup disk filename = some i)
    (permitted : checkPermissions
      (disk.inodeTable ((disk.rootDirectory i).inodeNumber - 1)).permissions 1 = true)
    (below : (disk.inodeTable ((disk.rootDirectory i).inodeNumber - 1)).size < maxSize)
    (buffer : Bytes) (size : Nat) :
    (appendToFile disk filename buffer size).1 =
        some (min size
          (maxSize - (disk.inodeTable ((disk.rootDirectory i).inodeNumber - 1)).size)) ↔
      blocksForAppend disk ((disk.rootDirectory i).inodeNumber - 1) size ≤
        maxBlocksPerFile - ownedBlocks disk ((disk.rootDirectory i).inodeNumber - 1) := by
  have invariant := reachable_invariant reachable
  obtain ⟨k, here⟩ := invariant.found found
  rw [here.number, Nat.add_sub_cancel] at permitted below ⊢
  exact here.appended_all_iff invariant permitted below buffer size

theorem appendToFile_full_iff_after_two :
    (appendToFile (writtenDisk [16384, 1]) nameA (fun _ => 7) 4095).1 = some 4095 ↔
      blocksForAppend (writtenDisk [16384, 1]) 0 4095 ≤
        maxBlocksPerFile - ownedBlocks (writtenDisk [16384, 1]) 0 := by
  have number : ((writtenDisk [16384, 1]).rootDirectory 0).inodeNumber = 1 := by decide +kernel
  have size : ((writtenDisk [16384, 1]).inodeTable (1 - 1)).size = 1 := by decide +kernel
  have spec := appendToFile_full_iff (writtenDisk [16384, 1]) (writtenDisk_reachable _) nameA 0
    (by decide +kernel) (by decide +kernel) (by decide +kernel) (fun _ => 7) 4095
  rw [number, size] at spec
  exact spec

/-- Four blocks written, then one byte: an append stops at the end of the first block. -/
theorem append_after_long_short :
    fileSystem.Reachable (writtenDisk [16384, 1]) ∧
      lookup (writtenDisk [16384, 1]) nameA = some 0 ∧
      checkPermissions ((writtenDisk [16384, 1]).inodeTable 0).permissions 1 = true ∧
      ((writtenDisk [16384, 1]).inodeTable 0).size = 1 ∧
      (appendToFile (writtenDisk [16384, 1]) nameA (fun _ => 7) 5000).1 = some 4095 ∧
      min 5000 (maxSize - 1) = 5000 := by
  refine ⟨writtenDisk_reachable _, ?_, ?_, ?_, ?_, ?_⟩
  all_goals decide +kernel

end ApnaOS.FileSystem
