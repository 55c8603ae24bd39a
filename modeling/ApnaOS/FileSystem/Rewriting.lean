import ApnaOS.FileSystem.Chunking

/-!
# Writing the same bytes again

A write that was cut off at the last block leaves the file with all four blocks, and the
size it ends at is one that the next write ends at as well.
-/

set_option autoImplicit false

namespace ApnaOS.FileSystem

open ApnaOS.Lib ApnaOS.StringOps
open Function (update update_self update_of_ne)

/-! ## One write -/

/-- Where `write_file` ends when the file has `c` blocks. -/
def writeEnd (size c n : Nat) : Nat :=
  min (min n maxSize) ((accountedBlocks size + (maxBlocksPerFile - c)) * blockSize)

/-- What `write_file` does to file `k`, which has `c` blocks. -/
structure Written (disk : Disk) (k c : Nat) (buffer : Bytes) (n : Nat)
    (result : Option Nat × Disk) (storage : Storage) : Prop where
  count : result.1 = some (writeEnd (disk.size k) c n)
  after : result.2 = (allocateBlocks disk k (blocksForWrite disk k n)).2.store k
    (writeEnd (disk.size k) c n) storage
  copied : Copied disk.storage storage
    ((allocateBlocks disk k (blocksForWrite disk k n)).2.blocks k) buffer 0 0
    (writeEnd (disk.size k) c n)
  beyond : SameBeyond disk.storage storage

theorem writeLoop_beyond (inode : Inode) (buffer : Bytes) (writeSize : Nat) (slots : List Nat)
    (written : Nat) (storage : Storage) :
    SameBeyond storage (writeLoop inode buffer writeSize slots written storage).2 := by
  induction slots generalizing written storage with
  | nil => exact fun _ _ _ => rfl
  | cons j rest ih =>
      rw [writeLoop]
      split
      · split
        · exact fun _ _ _ => rfl
        · rename_i block _
          apply SameBeyond.trans _ (ih _ _)
          intro b offset behind
          by_cases same : b = block
          · rw [same, update_self, memcpy_apply, if_neg (by omega)]
          · rw [update_of_ne same]
      · exact fun _ _ _ => rfl

theorem currentBlocks_eq (disk : Disk) (k : Nat) :
    currentBlocks disk k = accountedBlocks (disk.size k) := rfl

theorem reserveForWrite_snd (disk : Disk) (k n : Nat) :
    (reserveForWrite disk k n).2 = (allocateBlocks disk k (blocksForWrite disk k n)).2 := by
  have current : max (((disk.inodeTable k).size + blockSize - 1) / blockSize) 1 =
      currentBlocks disk k := rfl
  simp only [reserveForWrite, current]
  rw [blocksForWrite]
  generalize (min n maxSize + blockSize - 1) / blockSize = total
  generalize currentBlocks disk k = current
  by_cases needed : (total : Int) - (current : Int) > 0
  · have required : ((total : Int) - (current : Int)).toNat = total - current := by omega
    rw [if_pos needed, required]
    split <;> rfl
  · have nothing : total - current = 0 := by omega
    rw [if_neg needed, nothing, allocateBlocks, allocateBlocksFrom_enough (Nat.le_refl 0)]

theorem writeEnd_le {size c : Nat} (n : Nat) (one : 1 ≤ c) (fits : size ≤ c * blockSize) :
    writeEnd size c n ≤ (c + min ((min n maxSize + blockSize - 1) / blockSize - accountedBlocks size)
      (maxBlocksPerFile - c)) * blockSize := by
  have below := accountedBlocks_le one fits
  unfold writeEnd blockSize
  omega

theorem writeFile_written {disk : Disk} {filename : FileName} {i k c : Nat}
    (invariant : Invariant disk) (found : Found disk filename i k)
    (permitted : checkPermissions (disk.inodeTable k).permissions 1 = true)
    (one : 1 ≤ c) (occupied : SlotPrefix (disk.blocks k) c) (fits : disk.size k ≤ c * blockSize)
    (buffer : Bytes) (n : Nat) :
    ∃ storage, Written disk k c buffer n (writeFile disk filename buffer n) storage := by
  obtain ⟨after, added, reserved, count, grown⟩ :=
    reserveForWrite_grown n found.inode occupied invariant.blocks
  have taken := reserveForWrite_snd disk k n
  rw [reserved] at taken
  obtain ⟨blocks, bitmap, freeBlocks, rfl, occupied', _, consistent⟩ := grown
  have slots : (disk.withBlocks k blocks bitmap freeBlocks).inodeTable k =
      { disk.inodeTable k with blocks := blocks } := inodeTable_withBlocks ..
  rw [currentBlocks_eq] at reserved count
  change reserveForWrite disk k n = (writeEnd (disk.size k) c n, _) at reserved
  have room : writeEnd (disk.size k) c n ≤ (c + added) * blockSize := count ▸ writeEnd_le n one fits
  have limit : writeEnd (disk.size k) c n ≤ maxSize := by
    unfold writeEnd
    omega
  generalize ended : writeEnd (disk.size k) c n = written at *
  obtain ⟨storage, loop, copied⟩ := writeLoop_copied { disk.inodeTable k with blocks := blocks }
    buffer written (c + added) limit occupied' (consistent.slotsDistinct found.inode)
    maxBlocksPerFile 0 disk.storage (by omega) (by omega)
  have beyond := writeLoop_beyond { disk.inodeTable k with blocks := blocks } buffer written
    (List.range' 0 maxBlocksPerFile) (min written (0 * blockSize)) disk.storage
  rw [loop] at beyond
  have begins : min written (0 * blockSize) = 0 := by omega
  have ends : min written ((c + added) * blockSize) = written := by omega
  rw [begins, ends] at loop copied
  have result : writeFile disk filename buffer n = (some written,
      (disk.withBlocks k blocks bitmap freeBlocks).store k written storage) := by
    have loop' : writeLoop { disk.inodeTable k with blocks := blocks } buffer written
        (List.range' 0 maxBlocksPerFile) 0
        (disk.withBlocks k blocks bitmap freeBlocks).storage = (written, storage) := loop
    unfold writeFile
    simp only [found.scan, found.number, Nat.add_sub_cancel, permitted, if_true, reserved, slots,
      List.range_eq_range', loop']
    simp [Disk.store, Disk.setInode, Disk.withBlocks]
  refine ⟨storage, ?_, ?_, ?_, beyond⟩
  · rw [result, ended]
  · rw [result, ← taken, ended]
  · rw [← taken, ended, blocks_withBlocks, update_self]
    exact copied

/-! ## Two writes -/

theorem rewrite_positions {size c asked : Nat} (n : Nat) (one : 1 ≤ c)
    (fits : size ≤ c * blockSize)
    (asked_eq : asked = (min n maxSize + blockSize - 1) / blockSize - accountedBlocks size) :
    writeEnd (writeEnd size c n) (c + min asked (maxBlocksPerFile - c)) n = writeEnd size c n ∧
      ((min n maxSize + blockSize - 1) / blockSize - accountedBlocks (writeEnd size c n) = 0 ∨
        maxBlocksPerFile - c ≤ asked) := by
  have below := accountedBlocks_le one fits
  have first : 1 ≤ accountedBlocks size := Nat.le_max_right _ _
  generalize accounted : accountedBlocks size = current at *
  rcases Nat.le_total (min n maxSize) ((current + (maxBlocksPerFile - c)) * blockSize) with
    all | truncated
  · have ended : writeEnd size c n = min n maxSize := by
      rw [writeEnd, accounted, Nat.min_eq_left all]
    have above := le_accountedBlocks (min n maxSize)
    rw [ended]
    constructor
    · rw [writeEnd, Nat.min_eq_left]
      exact above.trans (Nat.mul_le_mul_right blockSize (Nat.le_add_right _ _))
    · left
      exact Nat.sub_eq_zero_of_le (Nat.le_max_left _ _)
  · have ended : writeEnd size c n = (current + (maxBlocksPerFile - c)) * blockSize := by
      rw [writeEnd, accounted, Nat.min_eq_right truncated]
    have enough : maxBlocksPerFile - c ≤ asked := by
      unfold blockSize at *
      omega
    have full : maxBlocksPerFile - (c + min asked (maxBlocksPerFile - c)) = 0 := by omega
    refine ⟨?_, Or.inr enough⟩
    rw [ended, writeEnd, accountedBlocks_mul (first.trans (Nat.le_add_right _ _)), full,
      Nat.add_zero, Nat.min_eq_right truncated]

theorem writeFile_twice {disk : Disk} {filename : FileName} {i k : Nat}
    (invariant : Invariant disk) (found : Found disk filename i k)
    (permitted : checkPermissions (disk.inodeTable k).permissions 1 = true)
    (buffer : Bytes) (n : Nat) :
    writeFile (writeFile disk filename buffer n).2 filename buffer n =
      writeFile disk filename buffer n := by
  obtain ⟨c, one, occupied, fits⟩ := invariant.occupied found
  obtain ⟨storage, written⟩ := writeFile_written invariant found permitted one occupied fits buffer n
  have kept := perform_invariant invariant (.writeFile filename buffer n)
  obtain ⟨found', permitted', occupied', size', contents⟩ := found.store invariant permitted occupied
    (blocksForWrite disk k n) (writeEnd (disk.size k) c n) storage
  rw [← written.after] at found' permitted' occupied' size' contents
  obtain ⟨middle, middle_eq⟩ : ∃ middle, (writeFile disk filename buffer n).2 = middle := ⟨_, rfl⟩
  have after := written.after
  rw [perform, middle_eq] at kept
  rw [middle_eq] at found' permitted' occupied' size' contents after ⊢
  obtain ⟨same_end, asked⟩ :=
    @rewrite_positions (disk.size k) c (blocksForWrite disk k n) n one fits rfl
  have fits' : middle.size k ≤ (c + min (blocksForWrite disk k n) (maxBlocksPerFile - c)) *
      blockSize := size' ▸ writeEnd_le n one fits
  obtain ⟨storage₂, written₂⟩ :=
    writeFile_written kept found' permitted' (by omega) occupied' fits' buffer n
  have allocated : (allocateBlocks middle k (blocksForWrite middle k n)).2 = middle := by
    have more : blocksForWrite middle k n = (min n maxSize + blockSize - 1) / blockSize -
        accountedBlocks (writeEnd (disk.size k) c n) := by
      rw [blocksForWrite, currentBlocks_eq, size']
    rw [← more] at asked
    rw [after, allocateBlocks_store, ← allocateBlocks_add, ← after]
    rcases asked with nothing | enough
    · rw [nothing, Nat.add_zero, ← after]
    · rw [allocateBlocks_beyond found.inode occupied invariant.blocks
          (enough.trans (Nat.le_add_right _ _)),
        ← allocateBlocks_beyond found.inode occupied invariant.blocks enough, ← after]
  have copied := written.copied
  have copied₂ := written₂.copied
  have beyond₂ := written₂.beyond
  have after₂ := written₂.after
  have count₂ := written₂.count
  have blocks : (allocateBlocks disk k (blocksForWrite disk k n)).2.blocks k = middle.blocks k := by
    rw [after, blocks_store]
  rw [blocks] at copied
  rw [size', same_end] at copied₂ after₂ count₂
  rw [allocated, contents] at copied₂
  rw [allocated] at after₂
  rw [contents] at beyond₂
  -- The bytes are there already.
  have already : Copied storage storage (middle.blocks k) buffer 0 0 (writeEnd (disk.size k) c n) :=
    ⟨copied.inside, fun _ _ _ => rfl, fun _ _ => rfl⟩
  have same : storage₂ = storage :=
    copied₂.unique already (fun _ _ => rfl) beyond₂ fun _ _ _ => rfl
  have snd : (writeFile middle filename buffer n).2 = middle := by
    rw [after₂, same, after, store_store]
  exact Prod.ext (count₂.trans written.count.symm) (snd.trans middle_eq.symm)

/-- Rewriting is idempotent, also where the first write was cut off. -/
theorem rewriting_idempotent (disk : Disk) (reachable : fileSystem.Reachable disk)
    (filename : FileName) (i : Nat) (found : lookup disk filename = some i)
    (permitted : checkPermissions
      (disk.inodeTable ((disk.rootDirectory i).inodeNumber - 1)).permissions 1 = true)
    (buffer : Bytes) (size : Nat) :
    (writeFile (writeFile disk filename buffer size).2 filename buffer size).1 =
        (writeFile disk filename buffer size).1 ∧
      (writeFile (writeFile disk filename buffer size).2 filename buffer size).2 =
        (writeFile disk filename buffer size).2 := by
  have invariant := reachable_invariant reachable
  obtain ⟨k, here⟩ := invariant.found found
  rw [here.number, Nat.add_sub_cancel] at permitted
  rw [writeFile_twice invariant here permitted buffer size]
  exact ⟨rfl, rfl⟩

/-- Four blocks written, then one byte: a long write is cut off after one block. -/
theorem rewriting_idempotent_truncated :
    (writeFile (writeFile (writtenDisk [16384, 1]) nameA (fun _ => 8) 5000).2 nameA
        (fun _ => 8) 5000).1 = (writeFile (writtenDisk [16384, 1]) nameA (fun _ => 8) 5000).1 ∧
      (writeFile (writeFile (writtenDisk [16384, 1]) nameA (fun _ => 8) 5000).2 nameA
        (fun _ => 8) 5000).2 = (writeFile (writtenDisk [16384, 1]) nameA (fun _ => 8) 5000).2 :=
  rewriting_idempotent (writtenDisk [16384, 1]) (writtenDisk_reachable _) nameA 0
    (by decide +kernel) (by decide +kernel) (fun _ => 8) 5000

end ApnaOS.FileSystem
