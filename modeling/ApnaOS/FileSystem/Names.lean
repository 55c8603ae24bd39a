import ApnaOS.FileSystem.Refinement

/-!
# File names as keys

`create_file` never compares its argument with the directory: it fills the first
free entry.  Names stay distinct exactly as long as no creation succeeds on a
name that is present, and a duplicate takes the name over exactly when the
filled entry comes first.
-/

set_option autoImplicit false

namespace ApnaOS.FileSystem

open ApnaOS.Lib ApnaOS.StringOps
open Function (update update_self update_of_ne)

/-- A creation that will succeed on a name some entry already holds. -/
def Duplicates (disk : Disk) : Operation → Prop
  | .createFile filename =>
      lookup disk filename ≠ none ∧ ∃ k, k < maxFiles ∧ (disk.inodeTable k).inodeNumber = 0
  | _ => False

def firstVacantEntry (disk : Disk) : Option Nat :=
  firstIndex maxFiles fun i => decide ((disk.rootDirectory i).inodeNumber = 0)

theorem createFile_namesDistinct_iff {disk : Disk} (invariant : Invariant disk)
    (distinct : (directoryOf disk).NamesDistinct) (filename : FileName) :
    (directoryOf (createFile disk filename).2).NamesDistinct ↔
      ¬ Duplicates disk (.createFile filename) := by
  cases scan : firstIndex maxFiles (fun k => decide (disk.number k = 0)) with
  | none =>
      have nofree : ¬ ∃ k, k < maxFiles ∧ (disk.inodeTable k).inodeNumber = 0 := by
        rintro ⟨k, bound, free⟩
        exact of_decide_eq_false ((firstIndex_eq_none_iff _ _).mp scan k bound) free
      rw [createFile_full scan]
      exact ⟨fun _ duplicates => nofree duplicates.2, fun _ => distinct⟩
  | some k =>
      obtain ⟨i, b, chosen⟩ := invariant.chosen scan
      obtain ⟨⟨inode, free⟩, ⟨entry, vacant⟩, _⟩ := chosen.free
      have empty : directoryOf disk i = none := (directoryOf_eq_none_iff entry).mpr vacant
      rw [createFile_chosen chosen, created_directory invariant chosen filename,
        Directory.namesDistinct_fill_iff distinct empty, ← lookup_eq_none_iff invariant]
      constructor
      · rintro missing ⟨present, _⟩
        exact present missing
      · intro allowed
        by_contra present
        exact allowed ⟨present, k, inode, free⟩

theorem perform_namesDistinct_iff {disk : Disk} (invariant : Invariant disk)
    (distinct : (directoryOf disk).NamesDistinct) (operation : Operation) :
    (directoryOf (perform disk operation).2).NamesDistinct ↔ ¬ Duplicates disk operation := by
  have acted := perform_step invariant operation
  cases operation with
  | createFile filename => exact createFile_namesDistinct_iff invariant distinct filename
  | writeFile filename buffer size =>
      simp only [Directory.Step] at acted
      refine iff_of_true (Directory.OnFirst.namesDistinct acted distinct ?_) id
      rintro file _ other (⟨_, _, _, _, rfl⟩ | ⟨_, _, rfl⟩) kept <;> cases kept <;> rfl
  | appendToFile filename buffer size =>
      simp only [Directory.Step] at acted
      refine iff_of_true (Directory.OnFirst.namesDistinct acted distinct ?_) id
      rintro file _ other (⟨_, _, _, _, _, rfl⟩ | ⟨_, _, _, rfl⟩ | ⟨_, _, rfl⟩) kept <;>
        cases kept <;> rfl
  | readFile filename buffer size => exact iff_of_true distinct id
  | deleteFile filename =>
      simp only [Directory.Step] at acted
      refine iff_of_true (Directory.OnFirst.namesDistinct acted distinct ?_) id
      rintro file _ other (⟨_, _, rfl⟩ | ⟨_, _, rfl⟩) kept <;> cases kept
      rfl
  | chmodFile filename newPermissions =>
      simp only [Directory.Step] at acted
      refine iff_of_true (Directory.OnFirst.namesDistinct acted distinct ?_) id
      rintro file _ other ⟨_, rfl⟩ kept
      cases kept
      rfl

/-- What a name refers to after a creation on that same name. -/
theorem createFile_shadows_iff {disk : Disk} (invariant : Invariant disk) {filename : FileName}
    {i : Nat} (present : lookup disk filename = some i) :
    (∀ v, firstVacantEntry disk = some v → v < i →
      lookup (createFile disk filename).2 filename = some v ∧
        directoryOf (createFile disk filename).2 v = some ⟨filename.chars, [], 0b111⟩) ∧
    ((∀ v, firstVacantEntry disk = some v → i < v) →
      lookup (createFile disk filename).2 filename = some i ∧
        directoryOf (createFile disk filename).2 i = directoryOf disk i) := by
  have invariant' : Invariant (createFile disk filename).2 :=
    perform_invariant invariant (.createFile filename)
  obtain ⟨file, finds⟩ := (lookup_eq_some_iff invariant filename i).mp present
  cases scan : firstIndex maxFiles (fun k => decide (disk.number k = 0)) with
  | none =>
      have noVacant : firstVacantEntry disk = none := by
        rw [firstVacantEntry, firstIndex_eq_none_iff]
        intro v bound
        rw [decide_eq_false_iff_not]
        exact invariant.directory.full (fun k inode =>
          of_decide_eq_false ((firstIndex_eq_none_iff _ _).mp scan k inode)) bound
      rw [createFile_full scan, noVacant]
      exact ⟨fun v vacant _ => absurd vacant (by simp), fun _ => ⟨present, rfl⟩⟩
  | some k =>
      obtain ⟨v, b, chosen⟩ := invariant.chosen scan
      obtain ⟨_, ⟨entry, vacant⟩, _⟩ := chosen.free
      have first : firstVacantEntry disk = some v := chosen.entry
      have empty : directoryOf disk v = none := (directoryOf_eq_none_iff entry).mpr vacant
      have after := finds.fill empty ⟨filename.chars, [], 0b111⟩ rfl
      rw [← created_directory invariant chosen filename] at after
      rw [createFile_chosen chosen] at invariant' ⊢
      have filled : directoryOf (created disk k v b filename) v =
          some ⟨filename.chars, [], 0b111⟩ := by
        rw [created_directory invariant chosen filename, update_self]
      constructor
      · intro v' same earlier
        cases Option.some.inj (first.symm.trans same)
        rw [if_pos earlier] at after
        exact ⟨(lookup_eq_some_iff invariant' filename v).mpr ⟨_, after⟩, filled⟩
      · intro later
        have notBefore : ¬ v < i := by
          have := later v first
          omega
        rw [if_neg notBefore] at after
        exact ⟨(lookup_eq_some_iff invariant' filename i).mpr ⟨_, after⟩,
          after.holds.trans finds.holds.symm⟩

/-- Names are keys in every state of a run exactly when no creation in it
succeeds on a name that is present; and in every reachable state a creation on a
present name changes what the name refers to exactly when the entry it fills
comes before the one found so far. -/
theorem file_names_distinct_iff :
    (∀ first trace last, fileSystem.initial first → fileSystem.Trace first trace last →
      ((∀ transition ∈ trace, (directoryOf transition.after).NamesDistinct) ↔
        ∀ transition ∈ trace, ¬ Duplicates transition.before transition.action)) ∧
    ∀ disk, fileSystem.Reachable disk → ∀ filename i, lookup disk filename = some i →
      (∀ v, firstVacantEntry disk = some v → v < i →
        lookup (createFile disk filename).2 filename = some v ∧
          directoryOf (createFile disk filename).2 v = some ⟨filename.chars, [], 0b111⟩) ∧
      ((∀ v, firstVacantEntry disk = some v → i < v) →
        lookup (createFile disk filename).2 filename = some i ∧
          directoryOf (createFile disk filename).2 i = directoryOf disk i) := by
  constructor
  · rintro first trace last ⟨before, rfl⟩ run
    refine run.good_iff Invariant (fun disk => (directoryOf disk).NamesDistinct)
      (fun disk operation => ¬ Duplicates disk operation) ?_ (formatDisk_invariant before) ?_
    · intro disk operation next invariant distinct taken
      cases Option.some.inj taken
      exact ⟨perform_namesDistinct_iff invariant distinct operation,
        fun _ => perform_invariant invariant operation⟩
    · intro i j file other holds
      rw [directoryOf_format] at holds
      cases holds
  · intro disk reachable filename i present
    exact createFile_shadows_iff (reachable_invariant reachable) present

/-- Entry 0 is free, entry 1 holds `b`. -/
def gapDisk : Disk :=
  performAll (formatDisk zeroDisk) [.createFile nameA, .createFile nameB, .deleteFile nameA]

theorem file_names_distinct_iff_at_gap :
    ((∀ transition ∈ [Transition.mk (formatDisk zeroDisk) (Operation.createFile nameB)
        (createFile (formatDisk zeroDisk) nameB).2],
        (directoryOf transition.after).NamesDistinct) ↔
      ∀ transition ∈ [Transition.mk (formatDisk zeroDisk) (Operation.createFile nameB)
        (createFile (formatDisk zeroDisk) nameB).2],
        ¬ Duplicates transition.before transition.action) ∧
      lookup (createFile gapDisk nameB).2 nameB = some 0 ∧
      directoryOf (createFile gapDisk nameB).2 0 = some ⟨nameB.chars, [], 0b111⟩ :=
  ⟨file_names_distinct_iff.1 _ _ _ ⟨zeroDisk, rfl⟩ (.cons rfl (.nil _)),
    (file_names_distinct_iff.2 gapDisk (reachable_performAll zeroDisk _) nameB 1
      (by decide +kernel)).1 0 (by decide +kernel) (by decide)⟩

/-- A second `b` is created in front of the first and hides it. -/
theorem names_repeat_and_shadow :
    fileSystem.Reachable gapDisk ∧ fileSystem.Reachable (createFile gapDisk nameB).2 ∧
      (directoryOf (createFile gapDisk nameB).2 0).map File.name = some nameB.chars ∧
      (directoryOf (createFile gapDisk nameB).2 1).map File.name = some nameB.chars ∧
      lookup gapDisk nameB = some 1 ∧ lookup (createFile gapDisk nameB).2 nameB = some 0 := by
  have reachable : fileSystem.Reachable gapDisk := reachable_performAll zeroDisk _
  have taken : fileSystem.step gapDisk (.createFile nameB) =
      some (createFile gapDisk nameB).2 := rfl
  refine ⟨reachable, reachable.step taken, ?_, ?_, ?_, ?_⟩
  all_goals decide +kernel

end ApnaOS.FileSystem
