import ApnaOS.FileSystem.Consistency
import ApnaOS.FileSystem.Directory
import Mathlib.Data.List.TakeWhile

/-!
# The disk refines the abstract directory

`directoryOf` reads a disk as a directory of byte strings.  On a consistent disk
every call of the code is a step of the abstract directory: the blocks of the
other files are untouched because no block has two owners.
-/

set_option autoImplicit false

namespace ApnaOS.FileSystem

open ApnaOS.Lib ApnaOS.StringOps
open Function (update update_self update_of_ne update_eq_self)

/-! ## Reading a disk as a directory -/

def slotBytes (disk : Disk) (k j : Nat) : List Byte :=
  match (disk.inodeTable k).blocks j with
  | some b => (List.range blockSize).map (disk.storage b)
  | none => []

/-- The first `size` bytes of the concatenated blocks. -/
def contents (disk : Disk) (k : Nat) : List Byte :=
  ((List.range maxBlocksPerFile).flatMap (slotBytes disk k)).take (disk.inodeTable k).size

/-- The C string an array of `MAX_FILENAME_LEN` bytes holds. -/
def spelling (filename : Bytes) : List Byte :=
  ((List.range maxFilenameLen).map filename).takeWhile (fun c => decide (c ≠ 0))

def fileOf (disk : Disk) (entry : DirectoryEntry) (k : Nat) : File :=
  { name := spelling entry.filename
    contents := contents disk k
    permissions := (disk.inodeTable k).permissions }

def directoryOf (disk : Disk) : Directory := fun i =>
  if i < maxFiles ∧ (disk.rootDirectory i).inodeNumber ≠ 0 then
    some (fileOf disk (disk.rootDirectory i) ((disk.rootDirectory i).inodeNumber - 1))
  else none

theorem directoryOf_occupied {disk : Disk} {i k : Nat} (bound : i < maxFiles)
    (number : (disk.rootDirectory i).inodeNumber = k + 1) :
    directoryOf disk i = some (fileOf disk (disk.rootDirectory i) k) := by
  unfold directoryOf
  rw [if_pos ⟨bound, by omega⟩, number, Nat.add_sub_cancel]

theorem directoryOf_eq_some {disk : Disk} (invariant : Invariant disk) {i : Nat} {file : File}
    (holds : directoryOf disk i = some file) :
    ∃ k, i < maxFiles ∧ k < maxFiles ∧ (disk.rootDirectory i).inodeNumber = k + 1 ∧
      disk.number k = k + 1 ∧ file = fileOf disk (disk.rootDirectory i) k := by
  have occupied : i < maxFiles ∧ (disk.rootDirectory i).inodeNumber ≠ 0 := by
    by_contra vacant
    simp only [directoryOf, if_neg vacant] at holds
    cases holds
  obtain ⟨k, inode, number, live⟩ := invariant.directory.live i occupied.1 occupied.2
  rw [directoryOf_occupied occupied.1 number] at holds
  exact ⟨k, occupied.1, inode, number, live, (Option.some.inj holds).symm⟩

theorem directoryOf_eq_none_iff {disk : Disk} {i : Nat} (bound : i < maxFiles) :
    directoryOf disk i = none ↔ (disk.rootDirectory i).inodeNumber = 0 := by
  unfold directoryOf
  by_cases vacant : (disk.rootDirectory i).inodeNumber = 0
  · simp [vacant]
  · simp [vacant, bound]

theorem directoryOf_format (disk : Disk) : directoryOf (formatDisk disk) = Directory.empty := by
  funext i
  unfold directoryOf Directory.empty
  rw [if_neg]
  rintro ⟨bound, occupied⟩
  exact occupied (by simp [formatDisk, bound])

/-! ## Contents as file bytes -/

theorem slotBytes_filled {disk : Disk} {k j b : Nat}
    (holds : (disk.inodeTable k).blocks j = some b) :
    slotBytes disk k j =
      (List.range blockSize).map
        (fun q => fileByte disk.storage (disk.inodeTable k).blocks (j * blockSize + q)) := by
  unfold slotBytes
  rw [holds]
  apply List.map_congr_left
  intro q member
  have inside := List.mem_range.mp member
  have slot : (j * blockSize + q) / blockSize = j := by
    unfold blockSize at *
    omega
  have offset : (j * blockSize + q) % blockSize = q := by
    unfold blockSize at *
    omega
  simp only [fileByte, slot, offset, holds]

theorem concatenated_blocks {disk : Disk} {k c : Nat}
    (occupied : SlotPrefix (disk.inodeTable k).blocks c) (n : Nat) (slots : n ≤ maxBlocksPerFile) :
    (List.range n).flatMap (slotBytes disk k) =
      (List.range (min n c * blockSize)).map
        (fileByte disk.storage (disk.inodeTable k).blocks) := by
  induction n with
  | zero => simp
  | succ n ih =>
      rw [List.range_succ, List.flatMap_append, ih (by omega)]
      by_cases held : n < c
      · obtain ⟨b, holds⟩ := occupied.filled held
        have before : min n c = n := by omega
        have after : min (n + 1) c * blockSize = n * blockSize + blockSize := by
          rw [show min (n + 1) c = n + 1 by omega, Nat.succ_mul]
        rw [before, after, List.range_add, List.map_append, List.map_map]
        simp only [List.flatMap_cons, List.flatMap_nil, List.append_nil, slotBytes_filled holds]
        rfl
      · have empty : (disk.inodeTable k).blocks n = none := by
          by_contra filled
          exact held ((occupied.2 n (by omega)).mp filled)
        have same : min (n + 1) c = min n c := by omega
        simp [slotBytes, empty, same]

theorem contents_eq {disk : Disk} {k c : Nat}
    (occupied : SlotPrefix (disk.inodeTable k).blocks c)
    (fits : (disk.inodeTable k).size ≤ c * blockSize) :
    contents disk k =
      (List.range (disk.inodeTable k).size).map
        (fileByte disk.storage (disk.inodeTable k).blocks) := by
  have slots : min maxBlocksPerFile c = c := Nat.min_eq_right occupied.1
  rw [contents, concatenated_blocks occupied maxBlocksPerFile (Nat.le_refl _), slots,
    ← List.map_take, List.take_range, Nat.min_eq_left fits]

theorem contents_length {disk : Disk} {k c : Nat}
    (occupied : SlotPrefix (disk.inodeTable k).blocks c)
    (fits : (disk.inodeTable k).size ≤ c * blockSize) :
    (contents disk k).length = (disk.inodeTable k).size := by
  rw [contents_eq occupied fits, List.length_map, List.length_range]

theorem contents_congr {disk after : Disk} {k : Nat}
    (size : (after.inodeTable k).size = (disk.inodeTable k).size)
    (blocks : (after.inodeTable k).blocks = (disk.inodeTable k).blocks)
    (storage : ∀ j b, j < maxBlocksPerFile → (disk.inodeTable k).blocks j = some b →
      after.storage b = disk.storage b) :
    contents after k = contents disk k := by
  have slots : (List.range maxBlocksPerFile).flatMap (slotBytes after k) =
      (List.range maxBlocksPerFile).flatMap (slotBytes disk k) := by
    apply List.flatMap_congr
    intro j member
    unfold slotBytes
    rw [blocks]
    cases slot : (disk.inodeTable k).blocks j with
    | none => rfl
    | some b => simp only [storage j b (List.mem_range.mp member) slot]
  rw [contents, contents, slots, size]

/-- A slot of the directory is unchanged when its entry, its inode and its
blocks are. -/
theorem directoryOf_unchanged {disk after : Disk} (invariant : Invariant disk) {i : Nat}
    (entry : after.rootDirectory i = disk.rootDirectory i)
    (file : ∀ k, i < maxFiles → k < maxFiles → (disk.rootDirectory i).inodeNumber = k + 1 →
      disk.number k = k + 1 → after.inodeTable k = disk.inodeTable k ∧
        ∀ j b, j < maxBlocksPerFile → (disk.inodeTable k).blocks j = some b →
          after.storage b = disk.storage b) :
    directoryOf after i = directoryOf disk i := by
  by_cases bound : i < maxFiles
  · by_cases occupied : (disk.rootDirectory i).inodeNumber ≠ 0
    · obtain ⟨k, inode, number, live⟩ := invariant.directory.live i bound occupied
      obtain ⟨same, storage⟩ := file k bound inode number live
      rw [directoryOf_occupied bound number, directoryOf_occupied bound (by rw [entry, number]),
        entry, fileOf, fileOf, same,
        contents_congr (by rw [same]) (by rw [same]) storage]
    · have vacant := not_not.mp occupied
      rw [(directoryOf_eq_none_iff bound).mpr vacant,
        (directoryOf_eq_none_iff bound).mpr (by rw [entry, vacant])]
  · simp [directoryOf, bound]

/-! ## Names -/

theorem spelling_of_name {filename : Bytes} (name : FileName)
    (spelled : ∀ n, n < maxFilenameLen → filename n = name.bytes n) :
    spelling filename = name.chars := by
  have array : (List.range maxFilenameLen).map filename =
      name.chars ++ List.replicate (maxFilenameLen - name.chars.length) 0 := by
    have short := name.short
    apply List.ext_getElem
    · simp only [List.length_map, List.length_range, List.length_append, List.length_replicate]
      omega
    · intro n inside _
      have below : n < maxFilenameLen := by simpa using inside
      rw [List.getElem_map, List.getElem_range, spelled n below, List.getElem_append]
      split
      · rename_i here
        simp [FileName.bytes, here]
      · rename_i beyond
        rw [List.getElem_replicate, name.bytes_beyond n (by omega)]
  have room : 0 < maxFilenameLen - name.chars.length := by
    have short := name.short
    omega
  obtain ⟨more, pad⟩ : ∃ more, maxFilenameLen - name.chars.length = more + 1 :=
    ⟨_, (Nat.succ_pred_eq_of_pos room).symm⟩
  rw [spelling, array, pad, List.replicate_succ, List.takeWhile_append_of_pos]
  · simp
  · intro c member
    simpa using name.nul_free c member

theorem strncmp_filename_iff {filename : Bytes} (name other : FileName)
    (spelled : ∀ n, n < maxFilenameLen → filename n = name.bytes n) :
    strncmp filename other.bytes maxFilenameLen = 0 ↔ name.chars = other.chars := by
  rw [strncmp, strncmpFrom_eq_zero_iff _ _ _ _ (by decide)]
  simp only [Nat.zero_add]
  have short := name.short
  constructor
  · intro agree
    have bytes : ∀ n, n ≤ name.chars.length → name.bytes n = other.bytes n := by
      intro n upper
      rw [← spelled n (by omega)]
      apply agree n (by omega)
      intro j lower
      rw [spelled j (by omega)]
      exact name.bytes_running j (by omega)
    have shorter : other.chars.length ≤ name.chars.length := by
      by_contra longer
      have stop := bytes name.chars.length (Nat.le_refl _)
      rw [name.bytes_beyond _ (Nat.le_refl _)] at stop
      exact other.bytes_running _ (by omega) stop.symm
    have longer : name.chars.length ≤ other.chars.length := by
      by_contra shorter'
      have stop := bytes other.chars.length (by omega)
      rw [other.bytes_beyond _ (Nat.le_refl _)] at stop
      exact name.bytes_running _ (by omega) stop
    apply List.ext_getElem (by omega)
    intro n here there
    have same := bytes n (by omega)
    simpa [FileName.bytes, here, there] using same
  · intro same n upper _
    rw [spelled n upper]
    simp [FileName.bytes, same]

theorem lookup_eq_some_iff {disk : Disk} (invariant : Invariant disk) (filename : FileName)
    (i : Nat) :
    lookup disk filename = some i ↔
      ∃ file, (directoryOf disk).Finds filename.chars i file := by
  have matches_iff : ∀ j, j < maxFiles →
      ((decide ((disk.rootDirectory j).inodeNumber ≠ 0) &&
        decide (strncmp (disk.rootDirectory j).filename filename.bytes maxFilenameLen = 0)) = true ↔
          ∃ file, directoryOf disk j = some file ∧ file.name = filename.chars) := by
    intro j bound
    rw [Bool.and_eq_true, decide_eq_true_eq, decide_eq_true_eq]
    constructor
    · rintro ⟨occupied, equal⟩
      obtain ⟨k, _, number, _⟩ := invariant.directory.live j bound occupied
      obtain ⟨name, spelled⟩ := invariant.directory.spelled j bound occupied
      refine ⟨_, directoryOf_occupied bound number, ?_⟩
      exact (spelling_of_name name spelled).trans ((strncmp_filename_iff name filename spelled).mp equal)
    · rintro ⟨file, holds, named⟩
      obtain ⟨k, _, _, number, _, rfl⟩ := directoryOf_eq_some invariant holds
      have occupied : (disk.rootDirectory j).inodeNumber ≠ 0 := by omega
      obtain ⟨name, spelled⟩ := invariant.directory.spelled j bound occupied
      refine ⟨occupied, (strncmp_filename_iff name filename spelled).mpr ?_⟩
      exact (spelling_of_name name spelled).symm.trans named
  rw [lookup, firstIndex_eq_some_iff]
  constructor
  · rintro ⟨bound, matched, first⟩
    obtain ⟨file, holds, named⟩ := (matches_iff i bound).mp matched
    refine ⟨file, holds, named, ?_⟩
    intro j other lower holds' named'
    have missed := first j lower
    rw [(matches_iff j (by omega)).mpr ⟨other, holds', named'⟩] at missed
    cases missed
  · rintro ⟨file, found⟩
    obtain ⟨k, bound, _, _, _, _⟩ := directoryOf_eq_some invariant found.holds
    refine ⟨bound, (matches_iff i bound).mpr ⟨file, found.holds, found.named⟩, ?_⟩
    intro j lower
    rw [Bool.eq_false_iff]
    intro matched
    obtain ⟨other, holds, named⟩ := (matches_iff j (by omega)).mp matched
    exact found.first j other lower holds named

theorem lookup_eq_none_iff {disk : Disk} (invariant : Invariant disk) (filename : FileName) :
    lookup disk filename = none ↔ (directoryOf disk).Absent filename.chars := by
  constructor
  · intro missing
    by_contra present
    obtain ⟨i, file, found⟩ := Directory.exists_finds present
    have hit := (lookup_eq_some_iff invariant filename i).mpr ⟨file, found⟩
    rw [missing] at hit
    cases hit
  · intro absent
    cases scan : lookup disk filename with
    | none => rfl
    | some i =>
        obtain ⟨file, found⟩ := (lookup_eq_some_iff invariant filename i).mp scan
        exact absurd absent found.not_absent

theorem Found.finds {disk : Disk} {filename : FileName} {i k : Nat}
    (found : Found disk filename i k) (invariant : Invariant disk) :
    (directoryOf disk).Finds filename.chars i (fileOf disk (disk.rootDirectory i) k) := by
  obtain ⟨file, finds⟩ := (lookup_eq_some_iff invariant filename i).mp found.scan
  have here := directoryOf_occupied found.entry found.number
  rw [finds.holds] at here
  cases Option.some.inj here
  exact finds

theorem Found.other {disk : Disk} {filename : FileName} {i k i' k' : Nat}
    (found : Found disk filename i k) (invariant : Invariant disk) (different : i' ≠ i)
    (bound : i' < maxFiles) (number : (disk.rootDirectory i').inodeNumber = k' + 1) : k' ≠ k := by
  intro same
  subst same
  exact different (invariant.directory.distinct i' i bound found.entry (by omega)
    (number.trans found.number.symm))

/-! ## Each operation as a step of the directory -/

theorem created_directory {disk : Disk} (invariant : Invariant disk) {k i b : Nat}
    (chosen : Chosen disk k i b) (filename : FileName) :
    directoryOf (created disk k i b filename) =
      update (directoryOf disk) i (some ⟨filename.chars, [], 0b111⟩) := by
  obtain ⟨⟨inode, free⟩, ⟨entry, vacant⟩, _⟩ := chosen.free
  funext i'
  by_cases same : i' = i
  · subst same
    have number : ((created disk k i' b filename).rootDirectory i').inodeNumber = k + 1 := by
      simp [created]
    rw [directoryOf_occupied entry number, update_self]
    have name : spelling ((created disk k i' b filename).rootDirectory i').filename =
        filename.chars := by
      apply spelling_of_name
      intro n inside
      simpa [created] using strncpy_filename (disk.rootDirectory i').filename filename n inside
    have nothing : contents (created disk k i' b filename) k = [] := by
      simp [contents, created]
    have rights : ((created disk k i' b filename).inodeTable k).permissions = 0b111 := by
      simp [created]
    rw [fileOf, name, nothing, rights]
  · rw [update_of_ne same]
    apply directoryOf_unchanged invariant
    · simp [created, same]
    · intro k' _ _ number live
      have different : k' ≠ k := by
        intro equal
        subst equal
        omega
      exact ⟨by simp [created, different], fun _ _ _ _ => rfl⟩

/-- Storing bytes from `start` on: the file keeps what lies before and ends with
the buffer's bytes; the other slots are unchanged. -/
theorem Stored.directory {disk after : Disk} {filename : FileName} {i k start upto : Nat}
    {buffer : Bytes} (invariant : Invariant disk) (found : Found disk filename i k)
    (outcome : Stored disk k buffer start upto after) (begun : start ≤ disk.size k)
    (ordered : start ≤ upto) :
    directoryOf after = update (directoryOf disk) i
      (some { fileOf disk (disk.rootDirectory i) k with
        contents := (contents disk k).take start ++
          Directory.firstBytes buffer (upto - start) }) := by
  obtain ⟨c, _, occupied, fits⟩ := invariant.occupied found
  obtain ⟨blocks, bitmap, freeBlocks, storage, c', rfl, _, occupied', room, kept, consistent,
    copied⟩ := outcome
  have inode : (stored disk k blocks bitmap freeBlocks storage upto).inodeTable k =
      { disk.inodeTable k with size := upto, blocks := blocks } := by
    simp [stored]
  funext i'
  by_cases same : i' = i
  · subst same
    have number : ((stored disk k blocks bitmap freeBlocks storage upto).rootDirectory
        i').inodeNumber = k + 1 := found.number
    rw [directoryOf_occupied found.entry number, update_self]
    have old : contents disk k = (List.range (disk.size k)).map
        (fileByte disk.storage (disk.blocks k)) := contents_eq occupied fits
    have new : contents (stored disk k blocks bitmap freeBlocks storage upto) k =
        (List.range upto).map (fileByte storage blocks) := by
      have spec := @contents_eq (stored disk k blocks bitmap freeBlocks storage upto) k c'
        (by rw [inode]; exact occupied') (by rw [inode]; exact room)
      rw [inode] at spec
      exact spec
    have split : contents (stored disk k blocks bitmap freeBlocks storage upto) k =
        (contents disk k).take start ++ Directory.firstBytes buffer (upto - start) := by
      rw [new, old, ← List.map_take, List.take_range, Nat.min_eq_left begun,
        show List.range upto = List.range (start + (upto - start)) by congr 1; omega,
        List.range_add, List.map_append, List.map_map]
      congr 1
      · apply List.map_congr_left
        intro p member
        have before := List.mem_range.mp member
        have slot : p / blockSize < c := by
          have size : disk.size k ≤ c * blockSize := fits
          unfold blockSize at *
          omega
        have reach := Nat.lt_of_lt_of_le slot occupied.1
        rw [copied.outside p reach (Or.inl before)]
        obtain ⟨b, holds⟩ := occupied.filled slot
        have holds' := kept (p / blockSize) b reach holds
        simp only [fileByte, holds', holds]
      · apply List.map_congr_left
        intro p member
        have inside := List.mem_range.mp member
        simp only [Function.comp_apply]
        rw [copied.inside (start + p) (by omega) (by omega), Nat.add_sub_cancel_left]
    have rights : ((stored disk k blocks bitmap freeBlocks storage upto).inodeTable k).permissions =
        (disk.inodeTable k).permissions := by rw [inode]
    rw [fileOf, split, rights]
    rfl
  · rw [update_of_ne same]
    refine directoryOf_unchanged invariant rfl ?_
    intro k' bound inode' number live
    have different := found.other invariant same bound number
    refine ⟨by simp [stored, different], ?_⟩
    intro j b slot holds
    apply copied.elsewhere
    intro j' slot' holds'
    have shared := consistent.unshared k j' k' j b found.inode slot' inode' slot
      (by rwa [update_self]) (by rwa [update_of_ne different])
    exact different shared.1.symm

theorem Deleted.directory {disk after : Disk} {filename : FileName} {i k : Nat}
    (invariant : Invariant disk) (found : Found disk filename i k)
    (outcome : Deleted disk k i after) :
    directoryOf after = update (directoryOf disk) i none := by
  obtain ⟨blocks, bitmap, freeBlocks, rfl, _, _⟩ := outcome
  funext i'
  by_cases same : i' = i
  · subst same
    rw [update_self, directoryOf_eq_none_iff found.entry]
    simp [deleted]
  · rw [update_of_ne same]
    apply directoryOf_unchanged invariant
    · simp [deleted, same]
    · intro k' bound _ number _
      have different := found.other invariant same bound number
      exact ⟨by simp [deleted, different], fun _ _ _ _ => rfl⟩

theorem chmod_directory {disk : Disk} {filename : FileName} {i k : Nat}
    (invariant : Invariant disk) (found : Found disk filename i k) (newPermissions : UInt16) :
    directoryOf (disk.setInode k { disk.inodeTable k with permissions := newPermissions }) =
      update (directoryOf disk) i
        (some { fileOf disk (disk.rootDirectory i) k with permissions := newPermissions }) := by
  funext i'
  by_cases same : i' = i
  · subst same
    have number : ((disk.setInode k
        { disk.inodeTable k with permissions := newPermissions }).rootDirectory
          i').inodeNumber = k + 1 := found.number
    have kept : contents (disk.setInode k
        { disk.inodeTable k with permissions := newPermissions }) k = contents disk k :=
      contents_congr (by simp [Disk.setInode]) (by simp [Disk.setInode]) (fun _ _ _ _ => rfl)
    rw [update_self, directoryOf_occupied found.entry number, fileOf, kept]
    simp [fileOf, Disk.setInode]
  · rw [update_of_ne same]
    refine directoryOf_unchanged invariant rfl ?_
    intro k' bound _ number _
    have different := found.other invariant same bound number
    exact ⟨by simp [Disk.setInode, different], fun _ _ _ _ => rfl⟩

theorem checkPermissions_write_iff (disk : Disk) (entry : DirectoryEntry) (k : Nat) :
    checkPermissions (disk.inodeTable k).permissions 1 = true ↔
      (fileOf disk entry k).writable := by
  simp [checkPermissions, File.writable, fileOf]

theorem checkPermissions_read_iff (disk : Disk) (entry : DirectoryEntry) (k : Nat) :
    checkPermissions (disk.inodeTable k).permissions 0 = true ↔
      (fileOf disk entry k).readable := by
  simp [checkPermissions, File.readable, fileOf]

theorem createFile_step {disk : Disk} (invariant : Invariant disk) (filename : FileName) :
    (directoryOf disk).Step (.createFile filename) (createFile disk filename).1
      (directoryOf (createFile disk filename).2) := by
  cases scan : firstIndex maxFiles (fun k => decide (disk.number k = 0)) with
  | none =>
      rw [createFile_full scan]
      refine Or.inl ⟨?_, rfl, rfl⟩
      have live : ∀ k, k < maxFiles → disk.number k ≠ 0 := fun k inode =>
        of_decide_eq_false ((firstIndex_eq_none_iff _ _).mp scan k inode)
      intro i bound vacant
      exact invariant.directory.full live bound ((directoryOf_eq_none_iff bound).mp vacant)
  | some k =>
      obtain ⟨i, b, chosen⟩ := invariant.chosen scan
      rw [createFile_chosen chosen]
      refine Or.inr ⟨i, k, ?_, rfl, created_directory invariant chosen filename⟩
      obtain ⟨bound, free, first⟩ := (firstIndex_eq_some_iff _ _ _).mp chosen.entry
      refine ⟨bound, (directoryOf_eq_none_iff bound).mpr (of_decide_eq_true free), ?_⟩
      intro j lower
      rw [Ne, directoryOf_eq_none_iff (by omega)]
      exact of_decide_eq_false (first j lower)

theorem writeFile_step {disk : Disk} (invariant : Invariant disk) (filename : FileName)
    (buffer : Bytes) (size : Nat) :
    (directoryOf disk).Step (.writeFile filename buffer size)
      (writeFile disk filename buffer size).1
      (directoryOf (writeFile disk filename buffer size).2) := by
  cases scan : lookup disk filename with
  | none =>
      rw [(perform_missing scan buffer size 0).1]
      exact Or.inl ⟨(lookup_eq_none_iff invariant filename).mp scan, rfl, rfl⟩
  | some i =>
      obtain ⟨k, found⟩ := invariant.found scan
      have finds := found.finds invariant
      cases permitted : checkPermissions (disk.inodeTable k).permissions 1 with
      | false =>
          rw [(perform_refused found permitted buffer size).1]
          refine Or.inr ⟨i, _, some _, finds, Or.inr ⟨?_, rfl, rfl⟩, ?_⟩
          · rw [← checkPermissions_write_iff, permitted]
            simp
          · rw [← finds.holds, update_eq_self]
      | true =>
          obtain ⟨c, one, occupied, fits⟩ := invariant.occupied found
          obtain ⟨written, after, amount, result, outcome⟩ :=
            writeFile_found invariant found permitted one occupied fits buffer size
          have directory := outcome.directory invariant found (Nat.zero_le _) (Nat.zero_le _)
          rw [List.take_zero, List.nil_append, Nat.sub_zero] at directory
          rw [result]
          exact Or.inr ⟨i, _, _, finds, Or.inl ⟨(checkPermissions_write_iff disk _ k).mp permitted,
            written, by omega, rfl, rfl⟩, directory⟩

theorem appendToFile_step {disk : Disk} (invariant : Invariant disk) (filename : FileName)
    (buffer : Bytes) (size : Nat) :
    (directoryOf disk).Step (.appendToFile filename buffer size)
      (appendToFile disk filename buffer size).1
      (directoryOf (appendToFile disk filename buffer size).2) := by
  cases scan : lookup disk filename with
  | none =>
      rw [(perform_missing scan buffer size 0).2.1]
      exact Or.inl ⟨(lookup_eq_none_iff invariant filename).mp scan, rfl, rfl⟩
  | some i =>
      obtain ⟨k, found⟩ := invariant.found scan
      have finds := found.finds invariant
      obtain ⟨c, one, occupied, fits⟩ := invariant.occupied found
      have length : (contents disk k).length = disk.size k := contents_length occupied fits
      cases permitted : checkPermissions (disk.inodeTable k).permissions 1 with
      | false =>
          rw [(perform_refused found permitted buffer size).2.1]
          refine Or.inr ⟨i, _, some _, finds, Or.inr (Or.inr ⟨?_, rfl, rfl⟩), ?_⟩
          · rw [← checkPermissions_write_iff, permitted]
            simp
          · rw [← finds.holds, update_eq_self]
      | true =>
          have writable := (checkPermissions_write_iff disk (disk.rootDirectory i) k).mp permitted
          by_cases full : maxSize ≤ disk.size k
          · rw [appendToFile_full found full]
            refine Or.inr ⟨i, _, some _, finds, Or.inr (Or.inl ⟨writable, ?_, rfl, rfl⟩), ?_⟩
            · exact length.symm ▸ full
            · rw [← finds.holds, update_eq_self]
          · have below : disk.size k < maxSize := by omega
            obtain ⟨written, after, amount, result, outcome⟩ :=
              appendToFile_found invariant found permitted below one occupied fits buffer size
            have directory := outcome.directory invariant found (Nat.le_refl _)
              (Nat.le_add_right _ _)
            rw [Nat.add_sub_cancel_left, ← length, List.take_length] at directory
            rw [result]
            exact Or.inr ⟨i, _, _, finds, Or.inl ⟨writable, length.symm ▸ below, written,
              by omega, rfl, rfl⟩, directory⟩

theorem deleteFile_step {disk : Disk} (invariant : Invariant disk) (filename : FileName) :
    (directoryOf disk).Step (.deleteFile filename) (deleteFile disk filename).1
      (directoryOf (deleteFile disk filename).2) := by
  cases scan : lookup disk filename with
  | none =>
      rw [(perform_missing scan (fun _ => 0) 0 0).2.2.1]
      exact Or.inl ⟨(lookup_eq_none_iff invariant filename).mp scan, rfl, rfl⟩
  | some i =>
      obtain ⟨k, found⟩ := invariant.found scan
      have finds := found.finds invariant
      cases permitted : checkPermissions (disk.inodeTable k).permissions 1 with
      | false =>
          rw [(perform_refused found permitted (fun _ => 0) 0).2.2]
          refine Or.inr ⟨i, _, some _, finds, Or.inr ⟨?_, rfl, rfl⟩, ?_⟩
          · rw [← checkPermissions_write_iff, permitted]
            simp
          · rw [← finds.holds, update_eq_self]
      | true =>
          obtain ⟨after, result, outcome⟩ := deleteFile_found invariant found permitted
          rw [result]
          exact Or.inr ⟨i, _, none, finds, Or.inl ⟨(checkPermissions_write_iff disk _ k).mp
            permitted, rfl, rfl⟩, outcome.directory invariant found⟩

theorem chmodFile_step {disk : Disk} (invariant : Invariant disk) (filename : FileName)
    (newPermissions : UInt16) :
    (directoryOf disk).Step (.chmodFile filename newPermissions)
      (chmodFile disk filename newPermissions).1
      (directoryOf (chmodFile disk filename newPermissions).2) := by
  cases scan : lookup disk filename with
  | none =>
      rw [(perform_missing scan (fun _ => 0) 0 newPermissions).2.2.2.1]
      exact Or.inl ⟨(lookup_eq_none_iff invariant filename).mp scan, rfl, rfl⟩
  | some i =>
      obtain ⟨k, found⟩ := invariant.found scan
      rw [chmodFile_found found]
      exact Or.inr ⟨i, _, _, found.finds invariant, ⟨rfl, rfl⟩,
        chmod_directory invariant found newPermissions⟩

theorem readFile_found {disk : Disk} {filename : FileName} {i k : Nat}
    (invariant : Invariant disk) (found : Found disk filename i k)
    (permitted : checkPermissions (disk.inodeTable k).permissions 0 = true) (buffer : Bytes)
    (size : Nat) :
    ∃ delivered,
      readFile disk filename buffer size = (some (min size (contents disk k).length), delivered) ∧
      Directory.firstBytes delivered (min size (contents disk k).length) =
        (contents disk k).take size ∧
      ∀ p, min size (contents disk k).length ≤ p → delivered p = buffer p := by
  obtain ⟨c, _, occupied, fits⟩ := invariant.occupied found
  have length : (contents disk k).length = disk.size k := contents_length occupied fits
  have readSize : (if size > (disk.inodeTable k).size then (disk.inodeTable k).size else size) =
      min size (disk.size k) := by
    unfold Disk.size
    split <;> omega
  obtain ⟨delivered, run, bytes⟩ := readLoop_reads disk.storage (disk.inodeTable k)
    (min size (disk.size k)) c occupied (by omega) (min size (disk.size k)) 0 buffer
    (Nat.zero_le _) (by omega)
  rw [length]
  refine ⟨delivered, ?_, ?_, ?_⟩
  · unfold readFile
    simp only [found.scan, found.number, Nat.add_sub_cancel, permitted, if_true, readSize, run]
  · rw [show contents disk k = _ from contents_eq occupied fits, ← List.map_take, List.take_range]
    apply List.map_congr_left
    intro p member
    rw [bytes p, if_pos ⟨Nat.zero_le _, List.mem_range.mp member⟩]
  · intro p beyond
    rw [bytes p, if_neg (by omega)]

theorem readFile_refused {disk : Disk} {filename : FileName} {i k : Nat}
    (found : Found disk filename i k)
    (refused : checkPermissions (disk.inodeTable k).permissions 0 = false) (buffer : Bytes)
    (size : Nat) : readFile disk filename buffer size = (none, buffer) := by
  simp [readFile, found.scan, found.number, refused]

theorem readFile_step {disk : Disk} (invariant : Invariant disk) (filename : FileName)
    (buffer : Bytes) (size : Nat) :
    (directoryOf disk).Step (.readFile filename buffer size)
        (readFile disk filename buffer size).1 (directoryOf disk) ∧
      (directoryOf disk).Delivers filename buffer size
        (readFile disk filename buffer size).1 (readFile disk filename buffer size).2 := by
  cases scan : lookup disk filename with
  | none =>
      rw [(perform_missing scan buffer size 0).2.2.2.2]
      exact ⟨Or.inl ⟨(lookup_eq_none_iff invariant filename).mp scan, rfl, rfl⟩,
        Or.inl ⟨rfl, rfl⟩⟩
  | some i =>
      obtain ⟨k, found⟩ := invariant.found scan
      have finds := found.finds invariant
      have unchanged : directoryOf disk =
          update (directoryOf disk) i (some (fileOf disk (disk.rootDirectory i) k)) := by
        rw [← finds.holds, update_eq_self]
      cases permitted : checkPermissions (disk.inodeTable k).permissions 0 with
      | false =>
          rw [readFile_refused found permitted buffer size]
          refine ⟨Or.inr ⟨i, _, _, finds, ⟨Or.inr ⟨?_, rfl⟩, rfl⟩, unchanged⟩, Or.inl ⟨rfl, rfl⟩⟩
          rw [← checkPermissions_read_iff, permitted]
          simp
      | true =>
          have readable := (checkPermissions_read_iff disk (disk.rootDirectory i) k).mp permitted
          obtain ⟨delivered, result, bytes, beyond⟩ :=
            readFile_found invariant found permitted buffer size
          rw [result]
          exact ⟨Or.inr ⟨i, _, _, finds, ⟨Or.inl ⟨readable, rfl⟩, rfl⟩, unchanged⟩,
            Or.inr ⟨i, _, finds, readable, rfl, bytes, beyond⟩⟩

theorem perform_step {disk : Disk} (invariant : Invariant disk) (operation : Operation) :
    (directoryOf disk).Step operation (perform disk operation).1
      (directoryOf (perform disk operation).2) := by
  cases operation with
  | createFile filename => exact createFile_step invariant filename
  | writeFile filename buffer size => exact writeFile_step invariant filename buffer size
  | appendToFile filename buffer size => exact appendToFile_step invariant filename buffer size
  | readFile filename buffer size => exact (readFile_step invariant filename buffer size).1
  | deleteFile filename => exact deleteFile_step invariant filename
  | chmodFile filename newPermissions => exact chmodFile_step invariant filename newPermissions

/-- The file system simulates the abstract directory: formatting empties it, and
in every reachable state each call is a step of it, with `read_file` delivering
the promised bytes. -/
theorem fileSystem_refines_directory :
    (∀ before, directoryOf (formatDisk before) = Directory.empty) ∧
      ∀ disk, fileSystem.Reachable disk →
        (∀ operation, (directoryOf disk).Step operation (perform disk operation).1
          (directoryOf (perform disk operation).2)) ∧
        ∀ filename buffer size, (directoryOf disk).Delivers filename buffer size
          (readFile disk filename buffer size).1 (readFile disk filename buffer size).2 := by
  refine ⟨directoryOf_format, fun disk reachable => ?_⟩
  have invariant := reachable_invariant reachable
  exact ⟨perform_step invariant, fun filename buffer size =>
    (readFile_step invariant filename buffer size).2⟩

/-- The disk on which `a` holds 5000 sevens. -/
def sevensDisk : Disk :=
  performAll (formatDisk zeroDisk) [.createFile nameA, .writeFile nameA (fun _ => 7) 5000]

theorem fileSystem_refines_directory_at_sevens :
    (directoryOf sevensDisk).Delivers nameA (fun _ => 0) 8000
      (readFile sevensDisk nameA (fun _ => 0) 8000).1
      (readFile sevensDisk nameA (fun _ => 0) 8000).2 :=
  (fileSystem_refines_directory.2 sevensDisk (reachable_performAll zeroDisk _)).2 nameA _ 8000

end ApnaOS.FileSystem
