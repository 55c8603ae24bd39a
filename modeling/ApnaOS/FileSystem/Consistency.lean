import ApnaOS.FileSystem.Copying

/-!
# Consistency of the four tables over whole runs

Each operation is described by the disk it leaves; the invariant is then
preserved by columns.  The reachable states of the file system satisfy it, and
with it the consistency conditions a file-system check would test.
-/

set_option autoImplicit false

namespace ApnaOS.FileSystem

open ApnaOS.Lib ApnaOS.StringOps
open Function (update update_self update_of_ne update_idem update_eq_self)

/-! ## The invariant -/

/-- Occupied entries name live inodes one to one, under well-formed names, and
the inode counter counts the free ones. -/
structure DirectoryConsistent (number : Nat → Nat) (entries : Nat → DirectoryEntry)
    (freeInodes : Nat) : Prop where
  numbered : ∀ k, k < maxFiles → number k = 0 ∨ number k = k + 1
  live : ∀ i, i < maxFiles → (entries i).inodeNumber ≠ 0 →
    ∃ k, k < maxFiles ∧ (entries i).inodeNumber = k + 1 ∧ number k = k + 1
  named : ∀ k, k < maxFiles → number k ≠ 0 →
    ∃ i, i < maxFiles ∧ (entries i).inodeNumber = k + 1
  distinct : ∀ i i', i < maxFiles → i' < maxFiles → (entries i).inodeNumber ≠ 0 →
    (entries i).inodeNumber = (entries i').inodeNumber → i = i'
  spelled : ∀ i, i < maxFiles → (entries i).inodeNumber ≠ 0 →
    ∃ name : FileName, ∀ n, n < maxFilenameLen → (entries i).filename n = name.bytes n
  counted : freeInodes = Nat.count (fun k => number k = 0) maxFiles

/-- Free inodes own no block; a live one owns a prefix of its slots, at least
one, that its size fits into. -/
structure FilesConsistent (number : Nat → Nat) (blocks : Nat → Nat → Option Nat)
    (size : Nat → Nat) : Prop where
  free : ∀ k, k < maxFiles → number k = 0 → ∀ j, j < maxBlocksPerFile → blocks k j = none
  live : ∀ k, k < maxFiles → number k ≠ 0 →
    ∃ c, 1 ≤ c ∧ SlotPrefix (blocks k) c ∧ size k ≤ c * blockSize

structure Invariant (disk : Disk) : Prop where
  directory : DirectoryConsistent disk.number disk.rootDirectory disk.sb.freeInodes
  blocks : BlocksConsistent disk.blocks disk.blockBitmap disk.sb.freeBlocks
  files : FilesConsistent disk.number disk.blocks disk.size

theorem Invariant.slotsDistinct {disk : Disk} (invariant : Invariant disk) {k : Nat}
    (file : k < maxFiles) : SlotsDistinct (disk.blocks k) := by
  intro j j' b slot slot' holds holds'
  exact (invariant.blocks.unshared k j k j' b file slot file slot' holds holds').2

theorem formatDisk_invariant (disk : Disk) : Invariant (formatDisk disk) where
  directory := by
    have entry : ∀ i, i < maxFiles → ((formatDisk disk).rootDirectory i).inodeNumber = 0 := by
      intro i bound
      simp [formatDisk, bound]
    have number : ∀ k, k < maxFiles → (formatDisk disk).number k = 0 := by
      intro k bound
      simp [formatDisk, Disk.number, bound]
    constructor
    · exact fun k bound => Or.inl (number k bound)
    · exact fun i bound occupied => absurd (entry i bound) occupied
    · exact fun k bound live => absurd (number k bound) live
    · exact fun i _ bound _ occupied => absurd (entry i bound) occupied
    · exact fun i bound occupied => absurd (entry i bound) occupied
    · rw [count_congr_below maxFiles _ (fun _ => True) (fun k bound => by simp [number k bound]),
        Nat.count_true]
      rfl
  blocks := by
    have bitmap : ∀ b, b < blockCount → (formatDisk disk).blockBitmap b = 0 := by
      intro b bound
      simp [formatDisk, bound]
    have slots : ∀ k j, k < maxFiles → (formatDisk disk).blocks k j = none := by
      intro k j bound
      simp [formatDisk, Disk.blocks, bound]
    constructor
    · exact fun b bound => Or.inl (bitmap b bound)
    · intro k j b file _ holds
      rw [slots k j file] at holds
      cases holds
    · intro b bound one
      rw [bitmap b bound] at one
      omega
    · intro k j _ _ _ file _ _ _ holds
      rw [slots k j file] at holds
      cases holds
    · rw [count_congr_below blockCount _ (fun _ => True) (fun b bound => by simp [bitmap b bound]),
        Nat.count_true]
      rfl
  files := by
    constructor
    · intro k file _ j _
      simp [formatDisk, Disk.blocks, file]
    · intro k file live
      simp [formatDisk, Disk.number, file] at live

/-! ## Lookup -/

/-- The entry a name is found under. -/
structure Found (disk : Disk) (filename : FileName) (i k : Nat) : Prop where
  scan : lookup disk filename = some i
  entry : i < maxFiles
  number : (disk.rootDirectory i).inodeNumber = k + 1
  inode : k < maxFiles
  live : disk.number k = k + 1

theorem Invariant.found {disk : Disk} (invariant : Invariant disk) {filename : FileName} {i : Nat}
    (scan : lookup disk filename = some i) : ∃ k, Found disk filename i k := by
  obtain ⟨bound, matched, _⟩ := (firstIndex_eq_some_iff _ _ _).mp scan
  simp only [Bool.and_eq_true, decide_eq_true_eq] at matched
  obtain ⟨k, inode, number, live⟩ := invariant.directory.live i bound matched.1
  exact ⟨k, scan, bound, number, inode, live⟩

theorem Invariant.occupied {disk : Disk} (invariant : Invariant disk) {filename : FileName}
    {i k : Nat} (found : Found disk filename i k) :
    ∃ c, 1 ≤ c ∧ SlotPrefix (disk.blocks k) c ∧ disk.size k ≤ c * blockSize :=
  invariant.files.live k found.inode (by rw [found.live]; omega)

/-! ## chmod_file -/

theorem chmodFile_found {disk : Disk} {filename : FileName} {i k : Nat}
    (found : Found disk filename i k) (newPermissions : UInt16) :
    chmodFile disk filename newPermissions =
      (some 0, disk.setInode k { disk.inodeTable k with permissions := newPermissions }) := by
  unfold chmodFile
  simp only [found.scan, found.number, Nat.add_sub_cancel]

theorem setPermissions_invariant {disk : Disk} (invariant : Invariant disk) (k : Nat)
    (permissions : UInt16) :
    Invariant (disk.setInode k { disk.inodeTable k with permissions := permissions }) where
  directory := by
    rw [number_setInode]
    exact (update_eq_self k disk.number).symm ▸ invariant.directory
  blocks := by
    rw [blocks_setInode]
    exact (update_eq_self k disk.blocks).symm ▸ invariant.blocks
  files := by
    rw [number_setInode, blocks_setInode, size_setInode]
    exact (update_eq_self k disk.number).symm ▸ (update_eq_self k disk.blocks).symm ▸
      (update_eq_self k disk.size).symm ▸ invariant.files

/-! ## create_file -/

/-- The disk after a successful `create_file`: inode `k`, entry `i`, block `b`. -/
def created (disk : Disk) (k i b : Nat) (filename : FileName) : Disk :=
  { disk with
    sb :=
      { disk.sb with
        freeInodes := decrement disk.sb.freeInodes
        freeBlocks := decrement disk.sb.freeBlocks }
    inodeTable := update disk.inodeTable k
      { inodeNumber := k + 1
        size := 0
        blocks := update (disk.blocks k) 0 (some b)
        permissions := 0b111 }
    rootDirectory := update disk.rootDirectory i
      { filename := strncpy (disk.rootDirectory i).filename filename.bytes maxFilenameLen
        inodeNumber := k + 1 }
    blockBitmap := update disk.blockBitmap b 1 }

/-- The inode, entry and block a creation takes: the first free ones. -/
structure Chosen (disk : Disk) (k i b : Nat) : Prop where
  inode : firstIndex maxFiles (fun k => decide (disk.number k = 0)) = some k
  entry : firstIndex maxFiles (fun i => decide (disk.entryNumber i = 0)) = some i
  block : firstIndex blockCount (fun b => decide (disk.blockBitmap b = 0)) = some b

theorem Chosen.free {disk : Disk} {k i b : Nat} (chosen : Chosen disk k i b) :
    (k < maxFiles ∧ disk.number k = 0) ∧ (i < maxFiles ∧ disk.entryNumber i = 0) ∧
      (b < blockCount ∧ disk.blockBitmap b = 0) := by
  obtain ⟨inodeBound, inodeFree, _⟩ := (firstIndex_eq_some_iff _ _ _).mp chosen.inode
  obtain ⟨entryBound, entryFree, _⟩ := (firstIndex_eq_some_iff _ _ _).mp chosen.entry
  obtain ⟨blockBound, blockFree, _⟩ := (firstIndex_eq_some_iff _ _ _).mp chosen.block
  exact ⟨⟨inodeBound, by simpa using inodeFree⟩, ⟨entryBound, by simpa using entryFree⟩,
    ⟨blockBound, by simpa using blockFree⟩⟩

theorem DirectoryConsistent.exists_free {number : Nat → Nat} {entries : Nat → DirectoryEntry}
    {freeInodes : Nat} (consistent : DirectoryConsistent number entries freeInodes) {k : Nat}
    (bound : k < maxFiles) (free : number k = 0) :
    ∃ i, i < maxFiles ∧ (entries i).inodeNumber = 0 := by
  have few : ((Finset.range maxFiles).erase k).card < maxFiles := by
    rw [Finset.card_erase_of_mem (Finset.mem_range.mpr bound), Finset.card_range]
    omega
  obtain ⟨i, entry, vacant⟩ := exists_free_of_tagged maxFiles
    (fun i => (entries i).inodeNumber ≠ 0) (fun i => (entries i).inodeNumber - 1) _ few
    (by
      intro i entry occupied
      obtain ⟨k', inode, number', live⟩ := consistent.live i entry occupied
      have different : k' ≠ k := by
        intro same
        subst same
        omega
      rw [number', Nat.add_sub_cancel]
      exact Finset.mem_erase.mpr ⟨different, Finset.mem_range.mpr inode⟩)
    (by
      intro i i' entry entry' occupied occupied' same
      exact consistent.distinct i i' entry entry' occupied (by omega))
  exact ⟨i, entry, not_not.mp vacant⟩

theorem DirectoryConsistent.full {number : Nat → Nat} {entries : Nat → DirectoryEntry}
    {freeInodes : Nat} (consistent : DirectoryConsistent number entries freeInodes)
    (live : ∀ k, k < maxFiles → number k ≠ 0) {i : Nat} (bound : i < maxFiles) :
    (entries i).inodeNumber ≠ 0 := by
  intro vacant
  have holders : ∀ k, ∃ holder, k < maxFiles →
      holder < maxFiles ∧ (entries holder).inodeNumber = k + 1 := by
    intro k
    by_cases inode : k < maxFiles
    · obtain ⟨holder, held⟩ := consistent.named k inode (live k inode)
      exact ⟨holder, fun _ => held⟩
    · exact ⟨0, fun inode' => absurd inode' inode⟩
  choose holder held using holders
  have few : ((Finset.range maxFiles).erase i).card < maxFiles := by
    rw [Finset.card_erase_of_mem (Finset.mem_range.mpr bound), Finset.card_range]
    omega
  obtain ⟨k, inode, free⟩ := exists_free_of_tagged maxFiles (fun k => number k ≠ 0) holder _ few
    (by
      intro k inode _
      have different : holder k ≠ i := by
        intro same
        have names := (held k inode).2
        rw [same, vacant] at names
        omega
      exact Finset.mem_erase.mpr ⟨different, Finset.mem_range.mpr (held k inode).1⟩)
    (by
      intro k k' inode inode' _ _ same
      have names := (held k inode).2
      rw [same, (held k' inode').2] at names
      omega)
  exact free (live k inode)

theorem Invariant.chosen {disk : Disk} (invariant : Invariant disk) {k : Nat}
    (inode : firstIndex maxFiles (fun k => decide (disk.number k = 0)) = some k) :
    ∃ i b, Chosen disk k i b := by
  obtain ⟨bound, free, _⟩ := (firstIndex_eq_some_iff _ _ _).mp inode
  have unnumbered : disk.number k = 0 := by simpa using free
  obtain ⟨i, entryBound, vacant⟩ := invariant.directory.exists_free bound unnumbered
  obtain ⟨b, blockBound, unmarked⟩ := invariant.blocks.exists_free (j := 0) bound (by decide)
    (invariant.files.free k bound unnumbered 0 (by decide))
  obtain ⟨firstEntry, entry⟩ := firstIndex_isSome_of maxFiles
    (fun i => decide (disk.entryNumber i = 0)) i entryBound (decide_eq_true vacant)
  obtain ⟨firstBlock, block⟩ := firstIndex_isSome_of blockCount
    (fun b => decide (disk.blockBitmap b = 0)) b blockBound (decide_eq_true unmarked)
  exact ⟨firstEntry, firstBlock, inode, entry, block⟩

theorem createFile_chosen {disk : Disk} {k i b : Nat} (chosen : Chosen disk k i b)
    (filename : FileName) :
    createFile disk filename = (some k, created disk k i b filename) := by
  have inode : firstIndex maxFiles (fun i => decide ((disk.inodeTable i).inodeNumber = 0)) =
      some k := chosen.inode
  have entry : firstIndex maxFiles (fun i => decide ((disk.rootDirectory i).inodeNumber = 0)) =
      some i := chosen.entry
  have block := chosen.block
  simp only [createFile, allocateInode, inode, allocateBlock, Disk.setInode, Disk.setFreeInodes,
    Disk.setBitmap, Disk.setFreeBlocks, Disk.setEntry, block, entry, update_idem, update_self]
  rfl

theorem createFile_full {disk : Disk}
    (full : firstIndex maxFiles (fun k => decide (disk.number k = 0)) = none)
    (filename : FileName) : createFile disk filename = (none, disk) := by
  unfold createFile allocateInode
  rw [show firstIndex maxFiles (fun i => decide ((disk.inodeTable i).inodeNumber = 0)) = none
    from full]

theorem FileName.bytes_running (name : FileName) (n : Nat) (inside : n < name.chars.length) :
    name.bytes n ≠ 0 := by
  have element : name.bytes n = name.chars[n] := by simp [FileName.bytes, inside]
  rw [element]
  exact name.nul_free _ (List.getElem_mem inside)

theorem FileName.bytes_beyond (name : FileName) (n : Nat) (beyond : name.chars.length ≤ n) :
    name.bytes n = 0 := by
  simp [FileName.bytes, beyond]

theorem strncpy_filename (dest : Bytes) (filename : FileName) (n : Nat)
    (inside : n < maxFilenameLen) :
    strncpy dest filename.bytes maxFilenameLen n = filename.bytes n := by
  rw [strncpy_of_terminated dest filename.bytes filename.chars.length maxFilenameLen n
    filename.short (filename.bytes_beyond _ (Nat.le_refl _))
    (fun j lower => filename.bytes_running j lower)]
  by_cases short : n < filename.chars.length
  · rw [if_pos short]
  · rw [if_neg short, if_pos inside, filename.bytes_beyond n (by omega)]

theorem DirectoryConsistent.create {number : Nat → Nat} {entries : Nat → DirectoryEntry}
    {freeInodes : Nat} (consistent : DirectoryConsistent number entries freeInodes)
    {k i : Nat} (inode : k < maxFiles) (free : number k = 0) (bound : i < maxFiles)
    (vacant : (entries i).inodeNumber = 0) (filename : Bytes) (name : FileName)
    (spelled : ∀ n, n < maxFilenameLen → filename n = name.bytes n) :
    DirectoryConsistent (update number k (k + 1))
      (update entries i { filename := filename, inodeNumber := k + 1 })
      (decrement freeInodes) where
  numbered := by
    intro k' inode'
    by_cases same : k' = k
    · subst same; simp
    · simpa [same] using consistent.numbered k' inode'
  live := by
    intro i' bound' occupied
    by_cases same : i' = i
    · subst same
      exact ⟨k, inode, by simp, by simp⟩
    · rw [update_of_ne same] at occupied ⊢
      obtain ⟨k', inode', names, live⟩ := consistent.live i' bound' occupied
      have different : k' ≠ k := by
        intro equal
        subst equal
        omega
      exact ⟨k', inode', names, by rw [update_of_ne different, live]⟩
  named := by
    intro k' inode' live
    by_cases same : k' = k
    · subst same
      exact ⟨i, bound, by simp⟩
    · rw [update_of_ne same] at live
      obtain ⟨i', bound', names⟩ := consistent.named k' inode' live
      have different : i' ≠ i := by
        intro equal
        subst equal
        omega
      exact ⟨i', bound', by rw [update_of_ne different, names]⟩
  distinct := by
    -- the new entry's number is fresh, since no entry names a free inode
    have fresh : ∀ i', i' < maxFiles → (entries i').inodeNumber ≠ k + 1 := by
      intro i' bound' names
      obtain ⟨k', _, names', live⟩ := consistent.live i' bound' (by omega)
      have same : k' = k := by omega
      subst same
      omega
    intro i₁ i₂ bound₁ bound₂ occupied same
    by_cases first : i₁ = i <;> by_cases second : i₂ = i
    · rw [first, second]
    · subst first
      rw [update_self, update_of_ne second] at same
      exact absurd same.symm (fresh i₂ bound₂)
    · subst second
      rw [update_self, update_of_ne first] at same
      exact absurd same (fresh i₁ bound₁)
    · rw [update_of_ne first] at occupied
      rw [update_of_ne first, update_of_ne second] at same
      exact consistent.distinct i₁ i₂ bound₁ bound₂ occupied same
  spelled := by
    intro i' bound' occupied
    by_cases same : i' = i
    · subst same
      exact ⟨name, by simpa using spelled⟩
    · rw [update_of_ne same] at occupied ⊢
      exact consistent.spelled i' bound' occupied
  counted := by
    have lowered := count_eq_succ_of_cleared maxFiles (fun j => number j = 0)
      (fun j => update number k (k + 1) j = 0) k inode free (by simp)
      (by intro j _ different; simp [different])
    rw [consistent.counted, lowered, decrement_succ]

theorem DirectoryConsistent.remove {number : Nat → Nat} {entries : Nat → DirectoryEntry}
    {freeInodes : Nat} (consistent : DirectoryConsistent number entries freeInodes)
    {k i : Nat} (inode : k < maxFiles) (live : number k = k + 1) (bound : i < maxFiles)
    (names : (entries i).inodeNumber = k + 1) (filename : Bytes) :
    DirectoryConsistent (update number k 0)
      (update entries i { filename := filename, inodeNumber := 0 })
      (increment freeInodes) where
  numbered := by
    intro k' inode'
    by_cases same : k' = k
    · subst same; simp
    · simpa [same] using consistent.numbered k' inode'
  live := by
    intro i' bound' occupied
    by_cases same : i' = i
    · subst same; simp at occupied
    · rw [update_of_ne same] at occupied ⊢
      obtain ⟨k', inode', names', live'⟩ := consistent.live i' bound' occupied
      have different : k' ≠ k := by
        intro equal
        subst equal
        exact same (consistent.distinct i' i bound' bound occupied (names'.trans names.symm))
      exact ⟨k', inode', names', by rw [update_of_ne different, live']⟩
  named := by
    intro k' inode' live'
    by_cases same : k' = k
    · subst same; simp at live'
    · rw [update_of_ne same] at live'
      obtain ⟨i', bound', names'⟩ := consistent.named k' inode' live'
      have different : i' ≠ i := by
        intro equal
        subst equal
        omega
      exact ⟨i', bound', by rw [update_of_ne different, names']⟩
  distinct := by
    intro i₁ i₂ bound₁ bound₂ occupied same
    by_cases first : i₁ = i
    · subst first; simp at occupied
    · rw [update_of_ne first] at occupied same
      by_cases second : i₂ = i
      · subst second
        rw [update_self] at same
        exact absurd same occupied
      · rw [update_of_ne second] at same
        exact consistent.distinct i₁ i₂ bound₁ bound₂ occupied same
  spelled := by
    intro i' bound' occupied
    by_cases same : i' = i
    · subst same; simp at occupied
    · rw [update_of_ne same] at occupied ⊢
      exact consistent.spelled i' bound' occupied
  counted := by
    have raised := count_eq_succ_of_cleared maxFiles (fun j => update number k 0 j = 0)
      (fun j => number j = 0) k inode (by simp) (by omega)
      (by intro j _ different; simp [different])
    have small : Nat.count (fun j => number j = 0) maxFiles ≤ maxFiles := Nat.count_le _
    rw [consistent.counted, raised, increment_small]
    unfold maxFiles at small ⊢
    omega

theorem FilesConsistent.put {number : Nat → Nat} {blocks : Nat → Nat → Option Nat}
    {size : Nat → Nat} (consistent : FilesConsistent number blocks size) (k : Nat)
    {number' size' : Nat} {blocks' : Nat → Option Nat}
    (free : number' = 0 → ∀ j, j < maxBlocksPerFile → blocks' j = none)
    (live : number' ≠ 0 → ∃ c, 1 ≤ c ∧ SlotPrefix blocks' c ∧ size' ≤ c * blockSize) :
    FilesConsistent (update number k number') (update blocks k blocks')
      (update size k size') where
  free := by
    intro k' file unnumbered
    by_cases same : k' = k
    · subst same
      simp only [update_self] at unnumbered ⊢
      exact free unnumbered
    · simp only [update_of_ne same] at unnumbered ⊢
      exact consistent.free k' file unnumbered
  live := by
    intro k' file numbered
    by_cases same : k' = k
    · subst same
      simp only [update_self] at numbered ⊢
      exact live numbered
    · simp only [update_of_ne same] at numbered ⊢
      exact consistent.live k' file numbered

theorem created_invariant {disk : Disk} (invariant : Invariant disk) {k i b : Nat}
    (chosen : Chosen disk k i b) (filename : FileName) :
    Invariant (created disk k i b filename) := by
  obtain ⟨⟨inode, free⟩, ⟨entry, vacant⟩, ⟨block, unmarked⟩⟩ := chosen.free
  have none_owned := invariant.files.free k inode free
  have numberColumn : (created disk k i b filename).number = update disk.number k (k + 1) :=
    number_setInode disk k _
  have blocksColumn : (created disk k i b filename).blocks =
      update disk.blocks k (update (disk.blocks k) 0 (some b)) :=
    blocks_setInode disk k _
  have sizeColumn : (created disk k i b filename).size = update disk.size k 0 :=
    size_setInode disk k _
  refine ⟨?_, ?_, ?_⟩
  · rw [numberColumn]
    exact invariant.directory.create inode free entry vacant _ filename
      (fun n inside => strncpy_filename _ filename n inside)
  · rw [blocksColumn]
    exact invariant.blocks.take inode (by decide) (none_owned 0 (by decide)) block unmarked
  · rw [numberColumn, blocksColumn, sizeColumn]
    apply invariant.files.put k
    · intro zero
      omega
    · intro _
      have start : SlotPrefix (disk.blocks k) 0 :=
        ⟨by decide, fun j slot => by simp [none_owned j slot]⟩
      exact ⟨1, Nat.le_refl 1, start.extend (by decide) b, Nat.zero_le _⟩

/-! ## write_file and append_to_file -/

/-- The disk after bytes were stored in file `k`. -/
def stored (disk : Disk) (k : Nat) (blocks : Nat → Option Nat) (bitmap : Nat → Nat)
    (freeBlocks : Nat) (storage : Storage) (size : Nat) : Disk :=
  { disk with
    sb := { disk.sb with freeBlocks := freeBlocks }
    inodeTable := update disk.inodeTable k { disk.inodeTable k with size := size, blocks := blocks }
    storage := storage
    blockBitmap := bitmap }

/-- `after` is `disk` with file `k` ending at `upto` and its bytes from `start`
on taken from `buffer`; the file kept the blocks it had. -/
def Stored (disk : Disk) (k : Nat) (buffer : Bytes) (start upto : Nat) (after : Disk) : Prop :=
  ∃ blocks bitmap freeBlocks storage c,
    after = stored disk k blocks bitmap freeBlocks storage upto ∧
      1 ≤ c ∧ SlotPrefix blocks c ∧ upto ≤ c * blockSize ∧
      (∀ j b, j < maxBlocksPerFile → disk.blocks k j = some b → blocks j = some b) ∧
      BlocksConsistent (update disk.blocks k blocks) bitmap freeBlocks ∧
      Copied disk.storage storage blocks buffer start start upto

theorem BlocksConsistent.slotsDistinct {blocks : Nat → Nat → Option Nat} {bitmap : Nat → Nat}
    {freeBlocks k : Nat} {slots : Nat → Option Nat}
    (consistent : BlocksConsistent (update blocks k slots) bitmap freeBlocks)
    (file : k < maxFiles) : SlotsDistinct slots := by
  intro j j' b slot slot' holds holds'
  exact (consistent.unshared k j k j' b file slot file slot' (by simpa using holds)
    (by simpa using holds')).2

theorem writeFile_found {disk : Disk} {filename : FileName} {i k c : Nat}
    (invariant : Invariant disk) (found : Found disk filename i k)
    (permitted : checkPermissions (disk.inodeTable k).permissions 1 = true)
    (one : 1 ≤ c) (occupied : SlotPrefix (disk.blocks k) c)
    (fits : disk.size k ≤ c * blockSize) (buffer : Bytes) (size : Nat) :
    ∃ written after,
      written = min (min size maxSize)
        ((currentBlocks disk k + (maxBlocksPerFile - c)) * blockSize) ∧
      writeFile disk filename buffer size = (some written, after) ∧
      Stored disk k buffer 0 written after := by
  obtain ⟨grown, added, reserved, addedCount, blocks, bitmap, freeBlocks, rfl, occupied', kept,
    consistent⟩ := reserveForWrite_grown size found.inode occupied invariant.blocks
  have slots : (disk.withBlocks k blocks bitmap freeBlocks).inodeTable k =
      { disk.inodeTable k with blocks := blocks } := inodeTable_withBlocks ..
  have current : currentBlocks disk k ≤ c := by
    unfold currentBlocks blockSize at *
    omega
  generalize target : min (min size maxSize)
    ((currentBlocks disk k + (maxBlocksPerFile - c)) * blockSize) = written at reserved
  have room : written ≤ (c + added) * blockSize := by
    unfold blockSize at *
    omega
  have limit : written ≤ maxSize := by omega
  obtain ⟨storage, loop, copied⟩ := writeLoop_copied { disk.inodeTable k with blocks := blocks }
    buffer written (c + added) limit occupied' (consistent.slotsDistinct found.inode)
    maxBlocksPerFile 0 disk.storage (by omega) (by omega)
  have startsAtZero : min written (0 * blockSize) = 0 := by omega
  have endsThere : min written ((c + added) * blockSize) = written := by omega
  rw [startsAtZero, endsThere] at loop copied
  dsimp only at loop
  refine ⟨written, stored disk k blocks bitmap freeBlocks storage written, rfl, ?_, blocks,
    bitmap, freeBlocks, storage, c + added, rfl, by omega, occupied', room, ?_, consistent, copied⟩
  · unfold writeFile
    simp only [found.scan, found.number, Nat.add_sub_cancel, permitted, if_true, reserved, slots,
      List.range_eq_range']
    rw [show (disk.withBlocks k blocks bitmap freeBlocks).storage = disk.storage from rfl, loop]
    simp [stored, Disk.setInode, Disk.withBlocks]
  · intro j b slot holds
    rw [kept j ((occupied.2 j slot).mp (by simp [holds])), holds]

theorem appendToFile_found {disk : Disk} {filename : FileName} {i k c : Nat}
    (invariant : Invariant disk) (found : Found disk filename i k)
    (permitted : checkPermissions (disk.inodeTable k).permissions 1 = true)
    (below : disk.size k < maxSize) (one : 1 ≤ c) (occupied : SlotPrefix (disk.blocks k) c)
    (fits : disk.size k ≤ c * blockSize) (buffer : Bytes) (size : Nat) :
    ∃ written after,
      written = min (min size (maxSize - disk.size k))
        (spaceLeftInLast (disk.size k) + (maxBlocksPerFile - c) * blockSize) ∧
      appendToFile disk filename buffer size = (some written, after) ∧
      Stored disk k buffer (disk.size k) (disk.size k + written) after := by
  obtain ⟨grown, added, reserved, addedCount, blocks, bitmap, freeBlocks, rfl, occupied', kept,
    consistent⟩ := reserveForAppend_grown size found.inode occupied invariant.blocks
  have slots : (disk.withBlocks k blocks bitmap freeBlocks).inodeTable k =
      { disk.inodeTable k with blocks := blocks } := inodeTable_withBlocks ..
  generalize target : min (min size (maxSize - disk.size k))
    (spaceLeftInLast (disk.size k) + (maxBlocksPerFile - c) * blockSize) = written at reserved
  have room : disk.size k + written ≤ (c + added) * blockSize := by
    have space := spaceLeftInLast_cases (disk.size k)
    unfold blockSize at *
    omega
  obtain ⟨storage, loop, copied⟩ := appendLoop_copied { disk.inodeTable k with blocks := blocks }
    buffer (disk.size k) written (c + added) occupied' (consistent.slotsDistinct found.inode) room
    written 0 disk.storage (Nat.zero_le _) (by omega)
  rw [Nat.add_zero] at copied
  dsimp only at loop
  refine ⟨written, stored disk k blocks bitmap freeBlocks storage (disk.size k + written),
    rfl, ?_, blocks, bitmap, freeBlocks, storage, c + added, rfl, by omega, occupied', room,
    ?_, consistent, copied⟩
  · have open_ : ¬ (disk.inodeTable k).size ≥ maxSize := by
      intro full
      exact Nat.lt_irrefl _ (Nat.lt_of_lt_of_le below full)
    unfold appendToFile
    simp only [found.scan, found.number, Nat.add_sub_cancel, permitted, if_true, if_neg open_,
      reserved, slots]
    rw [show disk.size k = (disk.inodeTable k).size from rfl] at loop
    rw [show (disk.withBlocks k blocks bitmap freeBlocks).storage = disk.storage from rfl, loop]
    simp [stored, Disk.setInode, Disk.withBlocks, Disk.size]
  · intro j b slot holds
    rw [kept j ((occupied.2 j slot).mp (by simp [holds])), holds]

theorem Stored.invariant {disk after : Disk} {k start upto : Nat} {buffer : Bytes}
    (outcome : Stored disk k buffer start upto after) (invariant : Invariant disk)
    (live : disk.number k ≠ 0) : Invariant after := by
  obtain ⟨blocks, bitmap, freeBlocks, storage, c, rfl, one, occupied, room, kept, consistent, _⟩ :=
    outcome
  have numberColumn : (stored disk k blocks bitmap freeBlocks storage upto).number =
      update disk.number k (disk.number k) := number_setInode disk k _
  have blocksColumn : (stored disk k blocks bitmap freeBlocks storage upto).blocks =
      update disk.blocks k blocks := blocks_setInode disk k _
  have sizeColumn : (stored disk k blocks bitmap freeBlocks storage upto).size =
      update disk.size k upto := size_setInode disk k _
  refine ⟨?_, ?_, ?_⟩
  · rw [numberColumn, update_eq_self]
    exact invariant.directory
  · rw [blocksColumn]
    exact consistent
  · rw [numberColumn, blocksColumn, sizeColumn]
    apply invariant.files.put k
    · exact fun unnumbered => absurd unnumbered live
    · exact fun _ => ⟨c, one, occupied, room⟩

/-! ## delete_file -/

theorem freeSlots_emptied (k : Nat) (file : k < maxFiles) :
    ∀ (slots : List Nat) (disk : Disk), (∀ j ∈ slots, j < maxBlocksPerFile) →
      BlocksConsistent disk.blocks disk.blockBitmap disk.sb.freeBlocks →
      ∃ blocks bitmap freeBlocks,
        freeSlots k slots disk = disk.withBlocks k blocks bitmap freeBlocks ∧
        (∀ j, blocks j = if j ∈ slots then none else disk.blocks k j) ∧
        BlocksConsistent (update disk.blocks k blocks) bitmap freeBlocks := by
  intro slots
  induction slots with
  | nil =>
      intro disk _ consistent
      exact ⟨disk.blocks k, disk.blockBitmap, disk.sb.freeBlocks, (withBlocks_self disk k).symm,
        fun j => by simp, by rwa [update_eq_self]⟩
  | cons j rest ih =>
      intro disk bounds consistent
      have slot := bounds j (by simp)
      have restBounds : ∀ j' ∈ rest, j' < maxBlocksPerFile :=
        fun j' member => bounds j' (List.mem_cons_of_mem j member)
      rw [freeSlots]
      cases holds : (disk.inodeTable k).blocks j with
      | none =>
          obtain ⟨blocks, bitmap, freeBlocks, result, emptied, consistent'⟩ :=
            ih disk restBounds consistent
          refine ⟨blocks, bitmap, freeBlocks, result, fun j' => ?_, consistent'⟩
          rw [emptied j']
          by_cases same : j' = j
          · subst same
            have already : disk.blocks k j' = none := holds
            simp [already]
          · simp [same]
      | some b =>
          have released := consistent.release file slot holds
          have shape : ((disk.setBitmap b 0).setFreeBlocks
              (increment disk.sb.freeBlocks)).setSlot k j none =
              disk.withBlocks k (update (disk.blocks k) j none) (update disk.blockBitmap b 0)
                (increment disk.sb.freeBlocks) := rfl
          simp only [shape]
          obtain ⟨blocks, bitmap, freeBlocks, result, emptied, consistent'⟩ :=
            ih (disk.withBlocks k (update (disk.blocks k) j none) (update disk.blockBitmap b 0)
              (increment disk.sb.freeBlocks)) restBounds (by rw [blocks_withBlocks]; exact released)
          refine ⟨blocks, bitmap, freeBlocks, result.trans (withBlocks_withBlocks ..), fun j' => ?_,
            by simpa using consistent'⟩
          rw [emptied j', blocks_withBlocks, update_self]
          by_cases same : j' = j
          · subst same; simp
          · simp [same]

/-- The disk after a successful `delete_file` of inode `k` under entry `i`. -/
def deleted (disk : Disk) (k i : Nat) (blocks : Nat → Option Nat) (bitmap : Nat → Nat)
    (freeBlocks : Nat) : Disk :=
  { disk with
    sb :=
      { disk.sb with
        freeInodes := increment disk.sb.freeInodes
        freeBlocks := freeBlocks }
    inodeTable := update disk.inodeTable k
      { disk.inodeTable k with inodeNumber := 0, size := 0, blocks := blocks }
    rootDirectory := update disk.rootDirectory i
      { filename := memset (disk.rootDirectory i).filename 0 0 maxFilenameLen
        inodeNumber := 0 }
    blockBitmap := bitmap }

def Deleted (disk : Disk) (k i : Nat) (after : Disk) : Prop :=
  ∃ blocks bitmap freeBlocks,
    after = deleted disk k i blocks bitmap freeBlocks ∧
      (∀ j, j < maxBlocksPerFile → blocks j = none) ∧
      BlocksConsistent (update disk.blocks k blocks) bitmap freeBlocks

theorem deleteFile_found {disk : Disk} {filename : FileName} {i k : Nat}
    (invariant : Invariant disk) (found : Found disk filename i k)
    (permitted : checkPermissions (disk.inodeTable k).permissions 1 = true) :
    ∃ after, deleteFile disk filename = (some 0, after) ∧ Deleted disk k i after := by
  obtain ⟨blocks, bitmap, freeBlocks, result, emptied, consistent⟩ :=
    freeSlots_emptied k found.inode (List.range maxBlocksPerFile) disk
      (fun j member => List.mem_range.mp member) invariant.blocks
  refine ⟨deleted disk k i blocks bitmap freeBlocks, ?_, blocks, bitmap, freeBlocks, rfl, ?_,
    consistent⟩
  · unfold deleteFile
    simp only [found.scan, found.number, Nat.add_sub_cancel, permitted, if_true, result]
    simp [deleted, Disk.withBlocks, Disk.setInode, Disk.setFreeInodes, Disk.setEntry]
  · intro j slot
    rw [emptied j, if_pos (List.mem_range.mpr slot)]

theorem Deleted.invariant {disk after : Disk} {k i : Nat} {filename : FileName}
    (outcome : Deleted disk k i after) (invariant : Invariant disk)
    (found : Found disk filename i k) : Invariant after := by
  obtain ⟨blocks, bitmap, freeBlocks, rfl, emptied, consistent⟩ := outcome
  have numberColumn : (deleted disk k i blocks bitmap freeBlocks).number =
      update disk.number k 0 := number_setInode disk k _
  have blocksColumn : (deleted disk k i blocks bitmap freeBlocks).blocks =
      update disk.blocks k blocks := blocks_setInode disk k _
  have sizeColumn : (deleted disk k i blocks bitmap freeBlocks).size =
      update disk.size k 0 := size_setInode disk k _
  refine ⟨?_, ?_, ?_⟩
  · rw [numberColumn]
    exact invariant.directory.remove found.inode found.live found.entry found.number _
  · rw [blocksColumn]
    exact consistent
  · rw [numberColumn, blocksColumn, sizeColumn]
    apply invariant.files.put k
    · exact fun _ => emptied
    · exact fun contradictory => absurd rfl contradictory

/-! ## Every operation keeps the invariant -/

theorem perform_missing {disk : Disk} {filename : FileName} (missing : lookup disk filename = none)
    (buffer : Bytes) (size : Nat) (newPermissions : UInt16) :
    writeFile disk filename buffer size = (none, disk) ∧
      appendToFile disk filename buffer size = (none, disk) ∧
      deleteFile disk filename = (none, disk) ∧
      chmodFile disk filename newPermissions = (none, disk) ∧
      readFile disk filename buffer size = (none, buffer) := by
  simp [writeFile, appendToFile, deleteFile, chmodFile, readFile, missing]

theorem perform_refused {disk : Disk} {filename : FileName} {i k : Nat}
    (found : Found disk filename i k)
    (refused : checkPermissions (disk.inodeTable k).permissions 1 = false)
    (buffer : Bytes) (size : Nat) :
    writeFile disk filename buffer size = (none, disk) ∧
      appendToFile disk filename buffer size = (none, disk) ∧
      deleteFile disk filename = (none, disk) := by
  simp [writeFile, appendToFile, deleteFile, found.scan, found.number, refused]

theorem appendToFile_full {disk : Disk} {filename : FileName} {i k : Nat}
    (found : Found disk filename i k) (full : maxSize ≤ disk.size k) (buffer : Bytes)
    (size : Nat) : appendToFile disk filename buffer size = (none, disk) := by
  have limit : (disk.inodeTable k).size ≥ maxSize := full
  simp [appendToFile, found.scan, found.number, limit]

inductive Outcome (disk : Disk) : Operation → Disk → Prop where
  | unchanged (operation : Operation) : Outcome disk operation disk
  | created {filename : FileName} {k i b : Nat} (chosen : Chosen disk k i b) :
      Outcome disk (.createFile filename) (created disk k i b filename)
  | written {filename : FileName} {buffer : Bytes} {size i k upto : Nat} {after : Disk}
      (found : Found disk filename i k) (outcome : Stored disk k buffer 0 upto after) :
      Outcome disk (.writeFile filename buffer size) after
  | appended {filename : FileName} {buffer : Bytes} {size i k upto : Nat} {after : Disk}
      (found : Found disk filename i k) (outcome : Stored disk k buffer (disk.size k) upto after) :
      Outcome disk (.appendToFile filename buffer size) after
  | deleted {filename : FileName} {i k : Nat} {after : Disk}
      (found : Found disk filename i k) (outcome : Deleted disk k i after) :
      Outcome disk (.deleteFile filename) after
  | permitted {filename : FileName} {newPermissions : UInt16} {i k : Nat}
      (found : Found disk filename i k) :
      Outcome disk (.chmodFile filename newPermissions)
        (disk.setInode k { disk.inodeTable k with permissions := newPermissions })

theorem perform_outcome {disk : Disk} (invariant : Invariant disk) (operation : Operation) :
    Outcome disk operation (perform disk operation).2 := by
  cases operation with
  | createFile filename =>
      show Outcome disk _ (createFile disk filename).2
      cases scan : firstIndex maxFiles (fun k => decide (disk.number k = 0)) with
      | none =>
          rw [createFile_full scan]
          exact .unchanged _
      | some k =>
          obtain ⟨i, b, chosen⟩ := invariant.chosen scan
          rw [createFile_chosen chosen]
          exact .created chosen
  | writeFile filename buffer size =>
      show Outcome disk _ (writeFile disk filename buffer size).2
      cases scan : lookup disk filename with
      | none =>
          rw [(perform_missing scan buffer size 0).1]
          exact .unchanged _
      | some i =>
          obtain ⟨k, found⟩ := invariant.found scan
          cases permitted : checkPermissions (disk.inodeTable k).permissions 1 with
          | false =>
              rw [(perform_refused found permitted buffer size).1]
              exact .unchanged _
          | true =>
              obtain ⟨c, one, occupied, fits⟩ := invariant.occupied found
              obtain ⟨written, after, _, result, outcome⟩ :=
                writeFile_found invariant found permitted one occupied fits buffer size
              rw [result]
              exact .written found outcome
  | appendToFile filename buffer size =>
      show Outcome disk _ (appendToFile disk filename buffer size).2
      cases scan : lookup disk filename with
      | none =>
          rw [(perform_missing scan buffer size 0).2.1]
          exact .unchanged _
      | some i =>
          obtain ⟨k, found⟩ := invariant.found scan
          cases permitted : checkPermissions (disk.inodeTable k).permissions 1 with
          | false =>
              rw [(perform_refused found permitted buffer size).2.1]
              exact .unchanged _
          | true =>
              by_cases full : maxSize ≤ disk.size k
              · rw [appendToFile_full found full]
                exact .unchanged _
              · obtain ⟨c, one, occupied, fits⟩ := invariant.occupied found
                obtain ⟨written, after, _, result, outcome⟩ :=
                  appendToFile_found invariant found permitted (by omega) one occupied fits buffer
                    size
                rw [result]
                exact .appended found outcome
  | readFile filename buffer size => exact .unchanged _
  | deleteFile filename =>
      show Outcome disk _ (deleteFile disk filename).2
      cases scan : lookup disk filename with
      | none =>
          rw [(perform_missing scan (fun _ => 0) 0 0).2.2.1]
          exact .unchanged _
      | some i =>
          obtain ⟨k, found⟩ := invariant.found scan
          cases permitted : checkPermissions (disk.inodeTable k).permissions 1 with
          | false =>
              rw [(perform_refused found permitted (fun _ => 0) 0).2.2]
              exact .unchanged _
          | true =>
              obtain ⟨after, result, outcome⟩ := deleteFile_found invariant found permitted
              rw [result]
              exact .deleted found outcome
  | chmodFile filename newPermissions =>
      show Outcome disk _ (chmodFile disk filename newPermissions).2
      cases scan : lookup disk filename with
      | none =>
          rw [(perform_missing scan (fun _ => 0) 0 newPermissions).2.2.2.1]
          exact .unchanged _
      | some i =>
          obtain ⟨k, found⟩ := invariant.found scan
          rw [chmodFile_found found]
          exact .permitted found

theorem perform_invariant {disk : Disk} (invariant : Invariant disk) (operation : Operation) :
    Invariant (perform disk operation).2 := by
  have outcome := perform_outcome invariant operation
  generalize (perform disk operation).2 = after at outcome ⊢
  cases outcome with
  | unchanged => exact invariant
  | created chosen => exact created_invariant invariant chosen _
  | written found outcome | appended found outcome =>
      exact outcome.invariant invariant (by rw [found.live]; omega)
  | deleted found outcome => exact outcome.invariant invariant found
  | permitted found => exact setPermissions_invariant invariant _ _

theorem reachable_invariant {disk : Disk} (reachable : fileSystem.Reachable disk) :
    Invariant disk := by
  refine reachable.invariant ?_ ?_
  · rintro disk ⟨before, rfl⟩
    exact formatDisk_invariant before
  · intro disk operation next invariant taken
    cases Option.some.inj taken
    exact perform_invariant invariant operation

/-! ## What a file-system check would test -/

/-- Block `b` occurs in slot `j` of the live inode `k`. -/
def OwnedAt (disk : Disk) (b k j : Nat) : Prop :=
  k < maxFiles ∧ (disk.inodeTable k).inodeNumber ≠ 0 ∧ j < maxBlocksPerFile ∧
    (disk.inodeTable k).blocks j = some b

structure Consistent (disk : Disk) : Prop where
  entry_live : ∀ i, i < maxFiles → (disk.rootDirectory i).inodeNumber ≠ 0 →
    (disk.rootDirectory i).inodeNumber - 1 < maxFiles ∧
      (disk.inodeTable ((disk.rootDirectory i).inodeNumber - 1)).inodeNumber =
        (disk.rootDirectory i).inodeNumber
  live_named_once : ∀ k, k < maxFiles → (disk.inodeTable k).inodeNumber ≠ 0 →
    ∃! i, i < maxFiles ∧ (disk.rootDirectory i).inodeNumber = k + 1
  marked_iff_owned_once : ∀ b, b < blockCount →
    (disk.blockBitmap b = 1 ↔ ∃! slot : Nat × Nat, OwnedAt disk b slot.1 slot.2)
  unmarked_iff_unowned : ∀ b, b < blockCount →
    (disk.blockBitmap b = 0 ↔ ∀ k j, ¬ OwnedAt disk b k j)
  owned_in_range : ∀ b k j, OwnedAt disk b k j → b < blockCount
  free_owns_none : ∀ k, k < maxFiles → (disk.inodeTable k).inodeNumber = 0 →
    ∀ j, j < maxBlocksPerFile → (disk.inodeTable k).blocks j = none
  slots_prefix : ∀ k, k < maxFiles → (disk.inodeTable k).inodeNumber ≠ 0 →
    ∃ c, max 1 (((disk.inodeTable k).size + blockSize - 1) / blockSize) ≤ c ∧
      c ≤ maxBlocksPerFile ∧
      ∀ j, j < maxBlocksPerFile → ((disk.inodeTable k).blocks j ≠ none ↔ j < c)
  size_le : ∀ k, k < maxFiles → (disk.inodeTable k).inodeNumber ≠ 0 →
    (disk.inodeTable k).size ≤ maxSize
  freeInodes_eq : disk.sb.freeInodes =
    Nat.count (fun k => (disk.inodeTable k).inodeNumber = 0) maxFiles
  freeBlocks_eq : disk.sb.freeBlocks = Nat.count (fun b => disk.blockBitmap b = 0) blockCount

theorem Invariant.consistent {disk : Disk} (invariant : Invariant disk) : Consistent disk where
  entry_live := by
    intro i bound occupied
    obtain ⟨k, inode, names, live⟩ := invariant.directory.live i bound occupied
    rw [names, Nat.add_sub_cancel]
    exact ⟨inode, live⟩
  live_named_once := by
    intro k inode live
    obtain ⟨i, bound, names⟩ := invariant.directory.named k inode live
    refine ⟨i, ⟨bound, names⟩, ?_⟩
    rintro i' ⟨bound', names'⟩
    exact invariant.directory.distinct i' i bound' bound (by omega) (names'.trans names.symm)
  marked_iff_owned_once := by
    intro b bound
    constructor
    · intro one
      obtain ⟨k, j, file, slot, holds⟩ := invariant.blocks.owned b bound one
      have live : (disk.inodeTable k).inodeNumber ≠ 0 := by
        intro free
        have empty := invariant.files.free k file free j slot
        rw [empty] at holds
        cases holds
      refine ⟨(k, j), ⟨file, live, slot, holds⟩, ?_⟩
      rintro ⟨k', j'⟩ ⟨file', _, slot', holds'⟩
      obtain ⟨rfl, rfl⟩ := invariant.blocks.unshared k' j' k j b file' slot' file slot holds' holds
      rfl
    · rintro ⟨⟨k, j⟩, ⟨file, _, slot, holds⟩, _⟩
      exact (invariant.blocks.marked k j b file slot holds).2
  unmarked_iff_unowned := by
    intro b bound
    constructor
    · rintro zero k j ⟨file, _, slot, holds⟩
      have one := (invariant.blocks.marked k j b file slot holds).2
      omega
    · intro unowned
      rcases invariant.blocks.bit b bound with zero | one
      · exact zero
      · obtain ⟨k, j, file, slot, holds⟩ := invariant.blocks.owned b bound one
        by_cases free : (disk.inodeTable k).inodeNumber = 0
        · have empty := invariant.files.free k file free j slot
          rw [empty] at holds
          cases holds
        · exact absurd ⟨file, free, slot, holds⟩ (unowned k j)
  owned_in_range := by
    rintro b k j ⟨file, _, slot, holds⟩
    exact (invariant.blocks.marked k j b file slot holds).1
  free_owns_none := invariant.files.free
  slots_prefix := by
    intro k file live
    obtain ⟨c, one, occupied, fits⟩ := invariant.files.live k file live
    refine ⟨c, ?_, occupied.1, occupied.2⟩
    have size : (disk.inodeTable k).size ≤ c * blockSize := fits
    unfold blockSize at *
    omega
  size_le := by
    intro k file live
    obtain ⟨c, _, occupied, fits⟩ := invariant.files.live k file live
    exact le_trans fits (Nat.mul_le_mul_right blockSize occupied.1)
  freeInodes_eq := invariant.directory.counted
  freeBlocks_eq := invariant.blocks.counted

/-- In every state reached from `format_disk` by file operations the four tables
agree. -/
theorem fileSystem_consistent (disk : Disk) (reachable : fileSystem.Reachable disk) :
    Consistent disk :=
  (reachable_invariant reachable).consistent

/-- `a` has its four blocks in front of those of `b`, is deleted and made anew, and `b` grows
around it; at last `b` may not be written to. -/
theorem fileSystem_consistent_after_delete :
    Consistent (performAll (formatDisk zeroDisk)
      [.createFile nameA, .writeFile nameA (fun _ => 7) 20000, .createFile nameB,
        .appendToFile nameB (fun _ => 5) 5000, .deleteFile nameA, .createFile nameA,
        .appendToFile nameB (fun _ => 6) 9000, .chmodFile nameB 0,
        .writeFile nameB (fun _ => 8) 10]) :=
  fileSystem_consistent _ (reachable_performAll zeroDisk _)

end ApnaOS.FileSystem
