import ApnaOS.FileSystem.Refinement

/-!
# Deleting a file undoes its creation

On tables that were zero at boot a free entry holds zeros and a free inode no size, so
`delete_file` puts back what `create_file` found there.  The bitmap and the counters follow
from the slots of the other inodes, which the file's own calls leave alone.
-/

set_option autoImplicit false

namespace ApnaOS.FileSystem

open ApnaOS.Lib ApnaOS.StringOps
open Function (update update_self update_of_ne update_idem)

/-! ## Free entries and free inodes -/

structure Clean (disk : Disk) : Prop where
  entries : ∀ i, i < maxFiles → disk.entryNumber i = 0 →
    ∀ n, n < maxFilenameLen → (disk.rootDirectory i).filename n = 0
  sizes : ∀ k, k < maxFiles → disk.number k = 0 → disk.size k = 0

theorem formatDisk_clean : Clean (formatDisk zeroDisk) where
  entries := by
    intro i _ _ n _
    simp [formatDisk, zeroDisk]
  sizes := by
    intro k bound _
    simp [formatDisk, Disk.size, bound]

theorem Clean.replace {disk after : Disk} {i k : Nat} (clean : Clean disk)
    (otherEntries : ∀ i', i' ≠ i → after.rootDirectory i' = disk.rootDirectory i')
    (otherInodes : ∀ k', k' ≠ k → after.inodeTable k' = disk.inodeTable k')
    (entry : after.entryNumber i = 0 →
      ∀ n, n < maxFilenameLen → (after.rootDirectory i).filename n = 0)
    (inode : after.number k = 0 → after.size k = 0) : Clean after where
  entries := by
    intro i' bound vacant n inside
    by_cases same : i' = i
    · subst same
      exact entry vacant n inside
    · rw [Disk.entryNumber, otherEntries i' same] at vacant
      rw [otherEntries i' same]
      exact clean.entries i' bound vacant n inside
  sizes := by
    intro k' bound free
    by_cases same : k' = k
    · subst same
      exact inode free
    · rw [Disk.number, otherInodes k' same] at free
      rw [Disk.size, otherInodes k' same]
      exact clean.sizes k' bound free

theorem Stored.clean {disk after : Disk} {filename : FileName} {i k start upto : Nat}
    {buffer : Bytes} (outcome : Stored disk k buffer start upto after) (clean : Clean disk)
    (found : Found disk filename i k) : Clean after := by
  obtain ⟨blocks, bitmap, freeBlocks, storage, c, rfl, _⟩ := outcome
  have live : (stored disk k blocks bitmap freeBlocks storage upto).number k = k + 1 := by
    simpa [stored, Disk.number] using found.live
  apply clean.replace (i := i) (k := k)
  · exact fun _ _ => rfl
  · intro k' different
    simp [stored, different]
  · intro vacant
    have occupied := found.number
    rw [show (disk.rootDirectory i).inodeNumber = 0 from vacant] at occupied
    omega
  · intro free
    omega

theorem perform_clean {disk : Disk} (invariant : Invariant disk) (clean : Clean disk)
    (operation : Operation) : Clean (perform disk operation).2 := by
  have outcome := perform_outcome invariant operation
  generalize (perform disk operation).2 = after at outcome ⊢
  cases outcome with
  | unchanged => exact clean
  | @created filename k i b chosen =>
      apply clean.replace (i := i) (k := k)
      · intro i' different
        simp [created, different]
      · intro k' different
        simp [created, different]
      · intro vacant
        simp [created, Disk.entryNumber] at vacant
      · intro free
        simp [created, Disk.number] at free
  | written found outcome | appended found outcome => exact outcome.clean clean found
  | @deleted filename i k after found outcome =>
      obtain ⟨blocks, bitmap, freeBlocks, rfl, _⟩ := outcome
      apply clean.replace (i := i) (k := k)
      · intro i' different
        simp [deleted, different]
      · intro k' different
        simp [deleted, different]
      · intro _ n inside
        simp [deleted, memset_apply, inside]
      · intro _
        simp [deleted, Disk.size]
  | @permitted filename newPermissions i k found =>
      apply clean.replace (i := i) (k := k)
      · exact fun _ _ => rfl
      · intro k' different
        simp [Disk.setInode, different]
      · exact clean.entries i found.entry
      · intro free
        have size := clean.sizes k found.inode (by simpa [Disk.number, Disk.setInode] using free)
        simpa [Disk.size, Disk.setInode] using size

theorem performAll_clean (operations : List Operation) :
    Invariant (performAll (formatDisk zeroDisk) operations) ∧
      Clean (performAll (formatDisk zeroDisk) operations) := by
  have run : ∀ disk, Invariant disk → Clean disk →
      Invariant (performAll disk operations) ∧ Clean (performAll disk operations) := by
    induction operations with
    | nil => exact fun disk invariant clean => ⟨invariant, clean⟩
    | cons operation rest ih =>
        intro disk invariant clean
        exact ih (perform disk operation).2 (perform_invariant invariant operation)
          (perform_clean invariant clean operation)
  exact run (formatDisk zeroDisk) (formatDisk_invariant zeroDisk) formatDisk_clean

/-! ## The file's own calls -/

/-- A `write_file` or an `append_to_file` on the name. -/
inductive Fills (filename : FileName) : Operation → Prop where
  | write (buffer : Bytes) (size : Nat) : Fills filename (.writeFile filename buffer size)
  | append (buffer : Bytes) (size : Nat) : Fills filename (.appendToFile filename buffer size)

/-- `disk` is `before` with one more file: entry `i`, inode `k`, and some blocks. -/
structure Holding (before : Disk) (filename : FileName) (i k : Nat) (disk : Disk) : Prop where
  invariant : Invariant disk
  found : Found disk filename i k
  permissions : (disk.inodeTable k).permissions = 0b111
  sb : disk.sb =
    { before.sb with freeInodes := disk.sb.freeInodes, freeBlocks := disk.sb.freeBlocks }
  entries : disk.rootDirectory = update before.rootDirectory i
    { filename := strncpy (before.rootDirectory i).filename filename.bytes maxFilenameLen
      inodeNumber := k + 1 }
  inodes : ∀ k', k' ≠ k → disk.inodeTable k' = before.inodeTable k'

theorem Holding.permitted {before disk : Disk} {filename : FileName} {i k : Nat}
    (holding : Holding before filename i k disk) :
    checkPermissions (disk.inodeTable k).permissions 1 = true := by
  rw [holding.permissions]
  rfl

theorem created_holding {disk : Disk} (invariant : Invariant disk) {k i b : Nat}
    (chosen : Chosen disk k i b) {filename : FileName}
    (absent : (directoryOf disk).Absent filename.chars) :
    Holding disk filename i k (created disk k i b filename) := by
  obtain ⟨⟨inode, _⟩, ⟨entry, vacant⟩, _⟩ := chosen.free
  have kept := created_invariant invariant chosen filename
  have directory := created_directory invariant chosen filename
  have scan : lookup (created disk k i b filename) filename = some i := by
    apply (lookup_eq_some_iff kept filename i).mpr
    refine ⟨⟨filename.chars, [], 0b111⟩, ?_, rfl, ?_⟩
    · rw [directory, update_self]
    · intro j other lower holds
      rw [directory, update_of_ne (by omega)] at holds
      exact absent j other holds
  have found : Found (created disk k i b filename) filename i k := by
    apply Found.mk scan entry _ inode
    · simp [created, Disk.number]
    · simp [created]
  constructor
  · exact kept
  · exact found
  · simp [created]
  · rfl
  · rfl
  · intro k' different
    simp [created, different]

theorem Holding.store {before disk after : Disk} {filename : FileName} {i k start upto : Nat}
    {buffer : Bytes} (holding : Holding before filename i k disk)
    (outcome : Stored disk k buffer start upto after) : Holding before filename i k after := by
  have live : disk.number k = k + 1 := holding.found.live
  have kept := outcome.invariant holding.invariant (by omega)
  obtain ⟨blocks, bitmap, freeBlocks, storage, c, rfl, _⟩ := outcome
  have found : Found (stored disk k blocks bitmap freeBlocks storage upto) filename i k :=
    ⟨holding.found.scan, holding.found.entry, holding.found.number, holding.found.inode, by
      simpa [stored, Disk.number] using live⟩
  constructor
  · exact kept
  · exact found
  · simpa [stored] using holding.permissions
  · rw [show (stored disk k blocks bitmap freeBlocks storage upto).sb =
      { disk.sb with freeBlocks := freeBlocks } from rfl, holding.sb]
  · exact holding.entries
  · intro k' different
    simpa [stored, different] using holding.inodes k' different

theorem Found.same_inode {disk : Disk} {filename : FileName} {i i' k k' : Nat}
    (one : Found disk filename i k) (two : Found disk filename i' k') : k = k' := by
  have entry := Option.some.inj (one.scan.symm.trans two.scan)
  have number := one.number
  rw [entry, two.number] at number
  exact (Nat.succ.inj number).symm

theorem Holding.fill {before disk : Disk} {filename : FileName} {i k : Nat}
    (holding : Holding before filename i k disk) {operation : Operation}
    (fills : Fills filename operation) :
    Holding before filename i k (perform disk operation).2 := by
  have outcome := perform_outcome holding.invariant operation
  generalize (perform disk operation).2 = after at outcome ⊢
  cases fills with
  | write buffer size =>
      cases outcome with
      | unchanged => exact holding
      | written found outcome =>
          rw [found.same_inode holding.found] at outcome
          exact holding.store outcome
  | append buffer size =>
      cases outcome with
      | unchanged => exact holding
      | appended found outcome =>
          rw [found.same_inode holding.found] at outcome
          exact holding.store outcome

theorem Holding.performAll {before disk : Disk} {filename : FileName} {i k : Nat}
    (holding : Holding before filename i k disk) (operations : List Operation)
    (fills : ∀ operation ∈ operations, Fills filename operation) :
    Holding before filename i k (performAll disk operations) := by
  induction operations generalizing disk with
  | nil => exact holding
  | cons operation rest ih =>
      obtain ⟨here, later⟩ := List.forall_mem_cons.mp fills
      exact ih (holding.fill here) later

/-! ## Deleting -/

theorem BlocksConsistent.determined {blocks blocks' : Nat → Nat → Option Nat}
    {bitmap bitmap' : Nat → Nat} {freeBlocks freeBlocks' : Nat}
    (one : BlocksConsistent blocks bitmap freeBlocks)
    (two : BlocksConsistent blocks' bitmap' freeBlocks')
    (same : ∀ k j, k < maxFiles → j < maxBlocksPerFile → blocks' k j = blocks k j) :
    (∀ b, b < blockCount → bitmap' b = bitmap b) ∧ freeBlocks' = freeBlocks := by
  have bits : ∀ b, b < blockCount → bitmap' b = bitmap b := by
    intro b bound
    have marks : bitmap' b = 1 ↔ bitmap b = 1 := by
      constructor
      · intro marked
        obtain ⟨k, j, file, slot, holds⟩ := two.owned b bound marked
        rw [same k j file slot] at holds
        exact (one.marked k j b file slot holds).2
      · intro marked
        obtain ⟨k, j, file, slot, holds⟩ := one.owned b bound marked
        rw [← same k j file slot] at holds
        exact (two.marked k j b file slot holds).2
    have left := one.bit b bound
    have right := two.bit b bound
    omega
  refine ⟨bits, ?_⟩
  rw [one.counted, two.counted]
  apply count_congr_below
  intro b bound
  rw [bits b bound]

/-- The four tables are as before; the bytes of free blocks may differ. -/
structure Restored (before after : Disk) : Prop where
  sb : after.sb = before.sb
  bitmap : ∀ b, b < blockCount → after.blockBitmap b = before.blockBitmap b
  entries : ∀ i, i < maxFiles → after.rootDirectory i = before.rootDirectory i
  numbers : ∀ k, k < maxFiles → (after.inodeTable k).inodeNumber = (before.inodeTable k).inodeNumber
  sizes : ∀ k, k < maxFiles → (after.inodeTable k).size = (before.inodeTable k).size
  slots : ∀ k j, k < maxFiles → j < maxBlocksPerFile →
    (after.inodeTable k).blocks j = (before.inodeTable k).blocks j

theorem memset_strncpy {dest : Bytes} (filename : FileName)
    (zeros : ∀ n, n < maxFilenameLen → dest n = 0) :
    memset (strncpy dest filename.bytes maxFilenameLen) 0 0 maxFilenameLen = dest := by
  funext n
  rw [memset_apply]
  by_cases inside : n < maxFilenameLen
  · rw [if_pos ⟨Nat.zero_le n, by omega⟩, zeros n inside]
  · rw [if_neg (by omega), strncpy_of_terminated dest filename.bytes filename.chars.length
      maxFilenameLen n filename.short (filename.bytes_beyond _ (Nat.le_refl _))
      (fun j lower => filename.bytes_running j lower)]
    have short := filename.short
    rw [if_neg (by omega), if_neg inside]

theorem Holding.deleted {before disk after : Disk} {filename : FileName} {i k : Nat}
    (invariant : Invariant before) (clean : Clean before) (vacant : before.entryNumber i = 0)
    (free : before.number k = 0) (holding : Holding before filename i k disk)
    (outcome : Deleted disk k i after) : Restored before after := by
  have inode := holding.found.inode
  have kept := outcome.invariant holding.invariant holding.found
  obtain ⟨blocks, bitmap, freeBlocks, rfl, emptied, _⟩ := outcome
  have other : ∀ k', k' ≠ k →
      (FileSystem.deleted disk k i blocks bitmap freeBlocks).inodeTable k' = before.inodeTable k' := by
    intro k' different
    simpa [FileSystem.deleted, different] using holding.inodes k' different
  have numbers : ∀ k', k' < maxFiles →
      (FileSystem.deleted disk k i blocks bitmap freeBlocks).number k' = before.number k' := by
    intro k' _
    by_cases same : k' = k
    · subst same
      rw [free]
      simp [FileSystem.deleted, Disk.number]
    · rw [Disk.number, other k' same]
      rfl
  have slots : ∀ k' j, k' < maxFiles → j < maxBlocksPerFile →
      (FileSystem.deleted disk k i blocks bitmap freeBlocks).blocks k' j = before.blocks k' j := by
    intro k' j file slot
    by_cases same : k' = k
    · subst same
      rw [invariant.files.free k' file free j slot]
      simpa [FileSystem.deleted, Disk.blocks] using emptied j slot
    · rw [Disk.blocks, other k' same]
      rfl
  obtain ⟨bits, blocksCounted⟩ := invariant.blocks.determined kept.blocks slots
  have inodesCounted : (FileSystem.deleted disk k i blocks bitmap freeBlocks).sb.freeInodes =
      before.sb.freeInodes := by
    rw [kept.directory.counted, invariant.directory.counted]
    apply count_congr_below
    intro k' bound
    rw [numbers k' bound]
  constructor
  · have shape : (FileSystem.deleted disk k i blocks bitmap freeBlocks).sb =
        { before.sb with
          freeInodes := (FileSystem.deleted disk k i blocks bitmap freeBlocks).sb.freeInodes
          freeBlocks := (FileSystem.deleted disk k i blocks bitmap freeBlocks).sb.freeBlocks } := by
      simp only [FileSystem.deleted]
      rw [holding.sb]
    rw [shape, inodesCounted, blocksCounted]
  · exact bits
  · intro i' bound
    by_cases same : i' = i
    · subst same
      have zeros := memset_strncpy filename (clean.entries i' bound vacant)
      have entry : (FileSystem.deleted disk k i' blocks bitmap freeBlocks).rootDirectory i' =
          ⟨(before.rootDirectory i').filename, 0⟩ := by
        simp [FileSystem.deleted, holding.entries, zeros]
      rw [entry]
      exact congrArg (DirectoryEntry.mk _) vacant.symm
    · simp [FileSystem.deleted, holding.entries, same]
  · exact numbers
  · intro k' bound
    by_cases same : k' = k
    · subst same
      have size : before.size k' = 0 := clean.sizes k' bound free
      rw [show (before.inodeTable k').size = 0 from size]
      simp [FileSystem.deleted]
    · rw [other k' same]
  · exact slots

theorem performAll_append (disk : Disk) (first second : List Operation) :
    performAll disk (first ++ second) = performAll (performAll disk first) second :=
  List.foldl_append ..

/-- Creating a file, filling it in any way and deleting it leaves the tables as they were. -/
theorem delete_undoes_create (operations : List Operation) (filename : FileName)
    (fillings : List Operation) (disk : Disk)
    (booted : disk = performAll (formatDisk zeroDisk) operations)
    (room : ∃ k, k < maxFiles ∧ (disk.inodeTable k).inodeNumber = 0)
    (absent : (directoryOf disk).Absent filename.chars)
    (fills : ∀ operation ∈ fillings, Fills filename operation) :
    Restored disk (performAll disk
      ((.createFile filename :: fillings) ++ [.deleteFile filename])) := by
  obtain ⟨invariant, clean⟩ := performAll_clean operations
  rw [← booted] at invariant clean
  obtain ⟨free, bound, unnumbered⟩ := room
  obtain ⟨k, scan⟩ := firstIndex_isSome_of maxFiles (fun k => decide (disk.number k = 0)) free bound
    (decide_eq_true unnumbered)
  obtain ⟨i, b, chosen⟩ := invariant.chosen scan
  obtain ⟨⟨_, number⟩, ⟨_, vacant⟩, _⟩ := chosen.free
  have start := created_holding invariant chosen absent
  have holding := start.performAll fillings fills
  obtain ⟨after, result, outcome⟩ :=
    deleteFile_found holding.invariant holding.found holding.permitted
  have first : (perform disk (.createFile filename)).2 = created disk k i b filename := by
    rw [perform, createFile_chosen chosen]
  have last : performAll disk ((.createFile filename :: fillings) ++ [.deleteFile filename]) =
      after := by
    rw [performAll_append]
    show (deleteFile (performAll (perform disk (.createFile filename)).2 fillings) filename).2 = _
    rw [first, result]
  rw [last]
  exact holding.deleted invariant clean vacant number outcome

/-- A name that was used before, over-long writes, and a shrinking one. -/
theorem delete_undoes_create_again :
    Restored (performAll (formatDisk zeroDisk)
        [.createFile nameA, .writeFile nameA (fun _ => 7) 5000, .createFile nameB,
          .deleteFile nameA])
      (performAll (performAll (formatDisk zeroDisk)
          [.createFile nameA, .writeFile nameA (fun _ => 7) 5000, .createFile nameB,
            .deleteFile nameA])
        ((.createFile nameA :: [.writeFile nameA (fun _ => 8) 20000,
          .writeFile nameA (fun _ => 9) 1, .appendToFile nameA (fun _ => 9) 9000]) ++
            [.deleteFile nameA])) :=
  delete_undoes_create _ nameA _ _ rfl ⟨0, by decide, by decide +kernel⟩
    ((lookup_eq_none_iff (reachable_invariant (reachable_performAll zeroDisk _)) nameA).mp
      (by decide +kernel))
    (by
      intro operation member
      simp only [List.mem_cons, List.not_mem_nil, or_false] at member
      rcases member with rfl | rfl | rfl
      · exact .write _ _
      · exact .write _ _
      · exact .append _ _)

end ApnaOS.FileSystem
