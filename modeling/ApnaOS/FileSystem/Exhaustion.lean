import ApnaOS.FileSystem.Consistency

/-!
# The disk does not run out of blocks

There are as many blocks as slots in all inodes, so `allocate_block` is never called in
vain.  The calls are recorded beside the loop of `allocate_blocks`.
-/

set_option autoImplicit false

namespace ApnaOS.FileSystem

open ApnaOS.Lib

/-! ## The calls of allocate_block -/

/-- The loop of `allocate_blocks`, with the disks on which it calls `allocate_block`. -/
def allocateBlocksCalls (inodeIndex requiredBlocks : Nat) :
    List Nat → Nat → Disk → (Nat × Disk) × List Disk
  | [], allocated, disk => ((allocated, disk), [])
  | i :: rest, allocated, disk =>
      if allocated < requiredBlocks then
        match (disk.inodeTable inodeIndex).blocks i with
        | some _ => allocateBlocksCalls inodeIndex requiredBlocks rest allocated disk
        | none =>
            match allocateBlock disk with
            | (none, after) => ((allocated, after), [disk])
            | (some newBlock, after) =>
                let (result, calls) := allocateBlocksCalls inodeIndex requiredBlocks rest
                  (allocated + 1) (after.setSlot inodeIndex i (some newBlock))
                (result, disk :: calls)
      else ((allocated, disk), [])

theorem allocateBlocksCalls_value (inodeIndex requiredBlocks : Nat) (slots : List Nat)
    (allocated : Nat) (disk : Disk) :
    (allocateBlocksCalls inodeIndex requiredBlocks slots allocated disk).1 =
      allocateBlocksFrom inodeIndex requiredBlocks slots allocated disk := by
  induction slots generalizing allocated disk with
  | nil => rfl
  | cons i rest ih =>
      rw [allocateBlocksCalls, allocateBlocksFrom]
      by_cases wanted : allocated < requiredBlocks
      · rw [if_pos wanted, if_pos wanted]
        cases (disk.inodeTable inodeIndex).blocks i with
        | some block => exact ih allocated disk
        | none =>
            obtain ⟨⟨block, after⟩, taken⟩ : ∃ result, allocateBlock disk = result := ⟨_, rfl⟩
            rw [taken]
            cases block with
            | none => rfl
            | some newBlock => exact ih (allocated + 1) (after.setSlot inodeIndex i (some newBlock))
      · rw [if_neg wanted, if_neg wanted]

/-- The calls while `write_file` reserves blocks. -/
def reserveForWriteCalls (disk : Disk) (inodeIndex size : Nat) : List Disk :=
  let writeSize := min size maxSize
  let currentBlocks := max (((disk.inodeTable inodeIndex).size + blockSize - 1) / blockSize) 1
  let totalBlocksNeeded := (writeSize + blockSize - 1) / blockSize
  let neededBlocks : Int := totalBlocksNeeded - currentBlocks
  if neededBlocks > 0 then
    (allocateBlocksCalls inodeIndex neededBlocks.toNat (List.range maxBlocksPerFile) 0 disk).2
  else []

/-- The calls while `append_to_file` reserves blocks. -/
def reserveForAppendCalls (disk : Disk) (inodeIndex size : Nat) : List Disk :=
  let currentSize := (disk.inodeTable inodeIndex).size
  let appendSize := min size (maxSize - currentSize)
  let usedInLastBlock := currentSize % blockSize
  let spaceLeftInLast :=
    if usedInLastBlock = 0 ∧ currentSize > 0 then 0 else blockSize - usedInLastBlock
  let overflow := if appendSize > spaceLeftInLast then appendSize - spaceLeftInLast else 0
  let neededBlocks := (overflow + blockSize - 1) / blockSize
  if neededBlocks > 0 then
    (allocateBlocksCalls inodeIndex neededBlocks (List.range maxBlocksPerFile) 0 disk).2
  else []

/-- The disks on which an operation calls `allocate_block`. -/
def allocateBlockCalls (disk : Disk) : Operation → List Disk
  | .createFile _ =>
      match allocateInode disk with
      | (none, _) => []
      | (some _, disk) => [disk]
  | .writeFile filename _ size =>
      match lookup disk filename with
      | some i =>
          let inodeIndex := (disk.rootDirectory i).inodeNumber - 1
          if checkPermissions (disk.inodeTable inodeIndex).permissions 1 then
            reserveForWriteCalls disk inodeIndex size
          else []
      | none => []
  | .appendToFile filename _ size =>
      match lookup disk filename with
      | some i =>
          let inodeIndex := (disk.rootDirectory i).inodeNumber - 1
          if checkPermissions (disk.inodeTable inodeIndex).permissions 1 then
            if (disk.inodeTable inodeIndex).size ≥ maxSize then []
            else reserveForAppendCalls disk inodeIndex size
          else []
      | none => []
  | _ => []

/-! ## No call fails -/

theorem allocateBlock_ne_none {disk : Disk} (free : ∃ b, b < blockCount ∧ disk.blockBitmap b = 0) :
    (allocateBlock disk).1 ≠ none := by
  obtain ⟨b, _, _, success⟩ := allocateBlock_of_free disk free
  rw [success]
  exact Option.some_ne_none b

/-- Each call comes from an empty slot, and after it the blocks are consistent again. -/
theorem allocateBlocksCalls_succeed {k : Nat} (file : k < maxFiles) (required : Nat)
    (slots : List Nat) (inside : ∀ i ∈ slots, i < maxBlocksPerFile) (allocated : Nat) {disk : Disk}
    (consistent : BlocksConsistent disk.blocks disk.blockBitmap disk.sb.freeBlocks) :
    ∀ call ∈ (allocateBlocksCalls k required slots allocated disk).2,
      (allocateBlock call).1 ≠ none := by
  induction slots generalizing allocated disk with
  | nil => exact fun call member => absurd member List.not_mem_nil
  | cons i rest ih =>
      obtain ⟨slot, inside⟩ := List.forall_mem_cons.mp inside
      rw [allocateBlocksCalls]
      split
      · split
        · exact ih inside allocated consistent
        · rename_i empty
          have free := consistent.exists_free file slot empty
          have succeeds := allocateBlock_ne_none free
          obtain ⟨b, bound, unmarked, success⟩ := allocateBlock_of_free disk free
          rw [success]
          dsimp only
          refine List.forall_mem_cons.mpr ⟨succeeds, ih inside (allocated + 1) ?_⟩
          rw [Disk.setSlot, blocks_setInode]
          exact consistent.take file slot empty bound unmarked
      · exact fun call member => absurd member List.not_mem_nil

theorem allocateInode_some {disk after : Disk} {k : Nat}
    (taken : allocateInode disk = (some k, after)) :
    firstIndex maxFiles (fun k => decide (disk.number k = 0)) = some k ∧
      after.blockBitmap = disk.blockBitmap := by
  have scanned : allocateInode disk =
      match firstIndex maxFiles (fun k => decide (disk.number k = 0)) with
      | some i => (some i, (disk.setInode i { disk.inodeTable i with inodeNumber := i + 1
          }).setFreeInodes (decrement disk.sb.freeInodes))
      | none => (none, disk) := rfl
  rw [scanned] at taken
  split at taken
  · rename_i i found
    obtain ⟨named, rfl⟩ := Prod.mk.inj taken
    exact ⟨found.trans named, rfl⟩
  · cases (Prod.mk.inj taken).1

theorem allocateBlockCalls_succeed {disk : Disk} (invariant : Invariant disk)
    (operation : Operation) :
    ∀ call ∈ allocateBlockCalls disk operation, (allocateBlock call).1 ≠ none := by
  have nothing : ∀ call ∈ ([] : List Disk), (allocateBlock call).1 ≠ none :=
    fun call member => absurd member List.not_mem_nil
  have loop : ∀ {k : Nat} (required : Nat), k < maxFiles →
      ∀ call ∈ (allocateBlocksCalls k required (List.range maxBlocksPerFile) 0 disk).2,
        (allocateBlock call).1 ≠ none := fun required file =>
    allocateBlocksCalls_succeed file required _ (fun i member => List.mem_range.mp member) 0
      invariant.blocks
  cases operation with
  | createFile filename =>
      rw [allocateBlockCalls]
      split
      · exact nothing
      · rename_i k after taken
        obtain ⟨chosen, bitmap⟩ := allocateInode_some taken
        obtain ⟨i, b, chosen⟩ := invariant.chosen chosen
        refine List.forall_mem_singleton.mpr (allocateBlock_ne_none ?_)
        rw [bitmap]
        exact ⟨b, chosen.free.2.2⟩
  | writeFile filename buffer size =>
      rw [allocateBlockCalls]
      split
      · rename_i i scan
        obtain ⟨k, found⟩ := invariant.found scan
        rw [found.number, Nat.add_sub_cancel]
        dsimp only
        split
        · rw [reserveForWriteCalls]
          split
          · exact loop _ found.inode
          · exact nothing
        · exact nothing
      · exact nothing
  | appendToFile filename buffer size =>
      rw [allocateBlockCalls]
      split
      · rename_i i scan
        obtain ⟨k, found⟩ := invariant.found scan
        rw [found.number, Nat.add_sub_cancel]
        dsimp only
        split
        · split
          · exact nothing
          · have asked : ∀ needed, ∀ call ∈ if needed > 0 then (allocateBlocksCalls k needed
                (List.range maxBlocksPerFile) 0 disk).2 else [], (allocateBlock call).1 ≠ none := by
              intro needed
              split
              · exact loop needed found.inode
              · exact nothing
            exact asked _
        · exact nothing
      · exact nothing
  | readFile | deleteFile | chmodFile => exact nothing

/-! ## Failing operations -/

def fileCount (disk : Disk) : Nat :=
  Nat.count (fun i => (disk.rootDirectory i).inodeNumber ≠ 0) maxFiles

theorem Invariant.createFile_none_iff {disk : Disk} (invariant : Invariant disk)
    (filename : FileName) :
    (createFile disk filename).1 = none ↔
      firstIndex maxFiles (fun k => decide (disk.number k = 0)) = none := by
  cases scan : firstIndex maxFiles (fun k => decide (disk.number k = 0)) with
  | none => simp only [createFile_full scan]
  | some k =>
      obtain ⟨i, b, chosen⟩ := invariant.chosen scan
      simp only [createFile_chosen chosen, reduceCtorEq]

theorem Invariant.fileCount_eq_iff {disk : Disk} (invariant : Invariant disk) :
    fileCount disk = maxFiles ↔
      firstIndex maxFiles (fun k => decide (disk.number k = 0)) = none := by
  rw [fileCount, Nat.count_iff_forall, firstIndex_eq_none_iff]
  constructor
  · intro entries k bound
    rw [decide_eq_false_iff_not]
    intro free
    obtain ⟨i, entry, vacant⟩ := invariant.directory.exists_free bound free
    exact entries i entry vacant
  · intro inodes i bound
    exact invariant.directory.full (fun k inode => of_decide_eq_false (inodes k inode)) bound

/-- An operation that returns -1 changes nothing. -/
theorem perform_none {disk : Disk} (invariant : Invariant disk) (operation : Operation)
    (failed : (perform disk operation).1 = none) : (perform disk operation).2 = disk := by
  cases operation with
  | createFile filename =>
      have full := (invariant.createFile_none_iff filename).mp failed
      exact congrArg Prod.snd (createFile_full full filename)
  | writeFile filename buffer size =>
      rw [perform] at failed ⊢
      cases scan : lookup disk filename with
      | none => rw [(perform_missing scan buffer size 0).1]
      | some i =>
          obtain ⟨k, found⟩ := invariant.found scan
          cases permitted : checkPermissions (disk.inodeTable k).permissions 1 with
          | false => rw [(perform_refused found permitted buffer size).1]
          | true =>
              obtain ⟨c, one, occupied, fits⟩ := invariant.occupied found
              obtain ⟨written, after, _, result, _⟩ :=
                writeFile_found invariant found permitted one occupied fits buffer size
              rw [result] at failed
              cases failed
  | appendToFile filename buffer size =>
      rw [perform] at failed ⊢
      cases scan : lookup disk filename with
      | none => rw [(perform_missing scan buffer size 0).2.1]
      | some i =>
          obtain ⟨k, found⟩ := invariant.found scan
          cases permitted : checkPermissions (disk.inodeTable k).permissions 1 with
          | false => rw [(perform_refused found permitted buffer size).2.1]
          | true =>
              by_cases full : maxSize ≤ disk.size k
              · rw [appendToFile_full found full]
              · obtain ⟨c, one, occupied, fits⟩ := invariant.occupied found
                obtain ⟨written, after, _, result, _⟩ :=
                  appendToFile_found invariant found permitted (by omega) one occupied fits buffer
                    size
                rw [result] at failed
                cases failed
  | readFile filename buffer size => rfl
  | deleteFile filename =>
      rw [perform] at failed ⊢
      cases scan : lookup disk filename with
      | none => rw [(perform_missing scan (fun _ => 0) 0 0).2.2.1]
      | some i =>
          obtain ⟨k, found⟩ := invariant.found scan
          cases permitted : checkPermissions (disk.inodeTable k).permissions 1 with
          | false => rw [(perform_refused found permitted (fun _ => 0) 0).2.2]
          | true =>
              obtain ⟨after, result, _⟩ := deleteFile_found invariant found permitted
              rw [result] at failed
              cases failed
  | chmodFile filename newPermissions =>
      rw [perform] at failed ⊢
      cases scan : lookup disk filename with
      | none => rw [(perform_missing scan (fun _ => 0) 0 newPermissions).2.2.2.1]
      | some i =>
          obtain ⟨k, found⟩ := invariant.found scan
          rw [chmodFile_found found] at failed
          cases failed

/-- No call of `allocate_block` fails, `create_file` fails only when all files exist, and
whatever fails leaves the disk as it was. -/
theorem no_space_exhaustion (disk : Disk) (reachable : fileSystem.Reachable disk) :
    (∀ operation, ∀ call ∈ allocateBlockCalls disk operation, (allocateBlock call).1 ≠ none) ∧
    (∀ filename, (createFile disk filename).1 = none ↔ fileCount disk = maxFiles) ∧
    ∀ operation, (perform disk operation).1 = none → (perform disk operation).2 = disk := by
  have invariant := reachable_invariant reachable
  refine ⟨allocateBlockCalls_succeed invariant, fun filename => ?_, perform_none invariant⟩
  rw [invariant.createFile_none_iff filename, invariant.fileCount_eq_iff]

theorem no_space_exhaustion_after_two :
    (createFile (performAll (formatDisk zeroDisk) [.createFile nameA, .createFile nameB]) nameA).1 =
        none ↔
      fileCount (performAll (formatDisk zeroDisk) [.createFile nameA, .createFile nameB]) =
        maxFiles :=
  (no_space_exhaustion _ (reachable_performAll zeroDisk _)).2.1 nameA

end ApnaOS.FileSystem
