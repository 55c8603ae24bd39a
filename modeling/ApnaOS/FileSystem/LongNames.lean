import ApnaOS.FileSystem.Consistency
import ApnaOS.Keyboard.StringWrites

/-!
# Names of any length

`create_file` copies the name with `strncpy` and does not look at its length.  The stores of
that copy are recorded here for any name.
-/

set_option autoImplicit false

namespace ApnaOS.FileSystem

open ApnaOS.Lib ApnaOS.StringOps
open Function (update update_self update_of_ne)

/-- The stores of the copy in `create_file` into entry `i`, by their offset from the start
of its name. -/
def createFileWrites (disk : Disk) (filename : Bytes) (i : Nat) : Writes Byte :=
  match allocateInode disk with
  | (none, _) => []
  | (some _, disk) =>
      match allocateBlock disk with
      | (none, _) => []
      | (some _, disk) =>
          if firstIndex maxFiles (fun i => decide ((disk.rootDirectory i).inodeNumber = 0)) =
              some i then
            strncpyWrites filename maxFilenameLen
          else []

/-- There is a free inode, a free block and a vacant entry, so that `create_file` reaches
the copy. -/
def HasRoom (disk : Disk) : Prop :=
  (∃ k, k < maxFiles ∧ disk.number k = 0) ∧ (∃ b, b < blockCount ∧ disk.blockBitmap b = 0) ∧
    ∃ i, i < maxFiles ∧ disk.entryNumber i = 0

theorem exists_free_iff (size : Nat) (table : Nat → Nat) :
    (∃ i, i < size ∧ table i = 0) ↔ ∃ i, firstIndex size (fun i => decide (table i = 0)) = some i := by
  constructor
  · rintro ⟨i, bound, free⟩
    exact firstIndex_isSome_of size _ i bound (decide_eq_true free)
  · rintro ⟨i, scan⟩
    obtain ⟨bound, free, _⟩ := (firstIndex_eq_some_iff _ _ _).mp scan
    exact ⟨i, bound, of_decide_eq_true free⟩

theorem exists_chosen_iff (disk : Disk) : HasRoom disk ↔ ∃ k i b, Chosen disk k i b := by
  rw [HasRoom, exists_free_iff, exists_free_iff, exists_free_iff]
  constructor
  · rintro ⟨⟨k, inode⟩, ⟨b, block⟩, ⟨i, entry⟩⟩
    exact ⟨k, i, b, inode, entry, block⟩
  · rintro ⟨k, i, b, chosen⟩
    exact ⟨⟨k, chosen.inode⟩, ⟨b, chosen.block⟩, ⟨i, chosen.entry⟩⟩

theorem createFileWrites_chosen {disk : Disk} {k i b : Nat} (chosen : Chosen disk k i b)
    (filename : Bytes) : createFileWrites disk filename i = strncpyWrites filename maxFilenameLen := by
  have inode : firstIndex maxFiles (fun i => decide ((disk.inodeTable i).inodeNumber = 0)) =
      some k := chosen.inode
  have entry : firstIndex maxFiles (fun i => decide ((disk.rootDirectory i).inodeNumber = 0)) =
      some i := chosen.entry
  simp only [createFileWrites, allocateInode, inode, allocateBlock, Disk.setInode,
    Disk.setFreeInodes, Disk.setBitmap, Disk.setFreeBlocks, chosen.block, entry, if_true]

theorem createFileWrites_cases (disk : Disk) (filename : Bytes) (i : Nat) :
    createFileWrites disk filename i = [] ∨ ∃ k b, Chosen disk k i b := by
  unfold createFileWrites allocateInode
  cases inode : firstIndex maxFiles (fun i => decide ((disk.inodeTable i).inodeNumber = 0)) with
  | none => exact Or.inl rfl
  | some k =>
      dsimp only [allocateBlock, Disk.setInode, Disk.setFreeInodes]
      cases block : firstIndex blockCount (fun b => decide (disk.blockBitmap b = 0)) with
      | none => exact Or.inl rfl
      | some b =>
          dsimp only [Disk.setBitmap, Disk.setFreeBlocks]
          split
          · rename_i entry
            exact Or.inr ⟨k, b, inode, entry, block⟩
          · exact Or.inl rfl

theorem createFile_kept (disk : Disk) (filename : FileName) (i : Nat) :
    (createFile disk filename).2.rootDirectory i = disk.rootDirectory i ∨
      ∃ k b, Chosen disk k i b := by
  cases inode : firstIndex maxFiles (fun i => decide ((disk.inodeTable i).inodeNumber = 0)) with
  | none =>
      left
      simp only [createFile, allocateInode, inode]
  | some k =>
      cases block : firstIndex blockCount (fun b => decide (disk.blockBitmap b = 0)) with
      | none =>
          left
          simp only [createFile, allocateInode, inode, allocateBlock, Disk.setInode,
            Disk.setFreeInodes, block]
      | some b =>
          cases entry : firstIndex maxFiles
              (fun i => decide ((disk.rootDirectory i).inodeNumber = 0)) with
          | none =>
              left
              simp only [createFile, allocateInode, inode, allocateBlock, Disk.setInode,
                Disk.setFreeInodes, Disk.setBitmap, Disk.setFreeBlocks, block]
              split
              · rename_i vacant scan
                exact absurd (scan.symm.trans entry) (Option.some_ne_none vacant)
              · rfl
          | some vacant =>
              by_cases here : i = vacant
              · subst here
                exact Or.inr ⟨k, b, inode, entry, block⟩
              · left
                rw [createFile_chosen ⟨inode, entry, block⟩]
                exact update_of_ne here ..

/-- For a name that fits, the stores give the names that `create_file` leaves. -/
theorem createFileWrites_value (disk : Disk) (filename : FileName) (i : Nat) :
    Writes.apply (disk.rootDirectory i).filename (createFileWrites disk filename.bytes i) =
      ((createFile disk filename).2.rootDirectory i).filename := by
  by_cases chosen : ∃ k b, Chosen disk k i b
  · obtain ⟨k, b, chosen⟩ := chosen
    rw [createFileWrites_chosen chosen, strncpyWrites_value, createFile_chosen chosen]
    simp [created]
  · have nothing := (createFileWrites_cases disk filename.bytes i).resolve_right chosen
    have kept := (createFile_kept disk filename i).resolve_right chosen
    rw [nothing, kept]
    rfl

/-- The copy stays inside the name of its entry exactly when the name is shorter than the
array or is not copied at all. -/
theorem createFileWrites_within_iff (disk : Disk) {filename : Bytes} {length : Nat}
    (string : IsString filename length) :
    (∀ i, Writes.Within maxFilenameLen (createFileWrites disk filename i)) ↔
      (HasRoom disk → length < maxFilenameLen) := by
  have positive : 0 < maxFilenameLen := by decide
  rw [exists_chosen_iff]
  constructor
  · rintro within ⟨k, i, b, chosen⟩
    have stores := within i
    rw [createFileWrites_chosen chosen] at stores
    exact (strncpyWrites_within_iff string positive).mp stores
  · intro short i
    rcases createFileWrites_cases disk filename i with nothing | ⟨k, b, chosen⟩
    · rw [nothing]
      exact Writes.Within.nil _
    · rw [createFileWrites_chosen chosen]
      exact (strncpyWrites_within_iff string positive).mpr (short ⟨k, i, b, chosen⟩)

/-- `strncpy` stores exactly the `n` bytes it should if the string is shorter than `n`, and
only then; and so the copy of `create_file` stays in its array if the name is shorter than
the array, or if there is no room for a file. -/
theorem strncpy_in_bounds_iff (src : Bytes) (length : Nat) (string : IsString src length) :
    (∀ n, strncpyWrites src n = Writes.span 0 (padded src length) n ↔ length < n) ∧
      ∀ disk, (∀ i, Writes.Within maxFilenameLen (createFileWrites disk src i)) ↔
        (HasRoom disk → length < maxFilenameLen) :=
  ⟨strncpyWrites_eq_iff string, fun disk => createFileWrites_within_iff disk string⟩

/-- A string of `length` times `x`. -/
def letters (length : Nat) : Bytes := fun i => if i < length then 120 else 0

theorem letters_isString (length : Nat) : IsString (letters length) length where
  running := by
    intro j inside
    rw [letters, if_pos inside]
    decide
  stop := by rw [letters, if_neg (Nat.lt_irrefl length)]

theorem strncpy_in_bounds_iff_at_three :
    (∀ n, strncpyWrites (letters 3) n = Writes.span 0 (padded (letters 3) 3) n ↔ 3 < n) ∧
      ∀ disk, (∀ i, Writes.Within maxFilenameLen (createFileWrites disk (letters 3) i)) ↔
        (HasRoom disk → 3 < maxFilenameLen) :=
  strncpy_in_bounds_iff (letters 3) 3 (letters_isString 3)

/-- Three characters and `n = 3`; and a name of 255 characters on an empty disk. -/
theorem strncpy_out_of_bounds :
    (¬ ∀ src length n, IsString src length →
      strncpyWrites src n = Writes.span 0 (padded src length) n) ∧
    ¬ ∀ disk src length, fileSystem.Reachable disk → IsString src length →
      ∀ i, Writes.Within maxFilenameLen (createFileWrites disk src i) := by
  constructor
  · intro always
    have same := always (letters 3) 3 3 (letters_isString 3)
    exact Nat.lt_irrefl 3 ((strncpyWrites_eq_iff (letters_isString 3) 3).mp same)
  · intro always
    have within := always (formatDisk zeroDisk) (letters 255) 255
      (System.reachable_initial ⟨zeroDisk, rfl⟩) (letters_isString 255)
    have room : HasRoom (formatDisk zeroDisk) :=
      ⟨⟨0, by decide, by rfl⟩, ⟨0, by decide, by rfl⟩, ⟨0, by decide, by rfl⟩⟩
    exact Nat.lt_irrefl 255
      ((createFileWrites_within_iff _ (letters_isString 255)).mp within room)

end ApnaOS.FileSystem
