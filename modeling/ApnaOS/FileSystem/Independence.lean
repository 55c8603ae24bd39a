import ApnaOS.FileSystem.Catalog
import ApnaOS.FileSystem.Exhaustion

/-!
# Files do not interfere

While every name belongs to one file, each file behaves as if it were alone: calls on other
files do not change an answer.  Only the number of a new inode depends on them.
-/

set_option autoImplicit false

namespace ApnaOS.FileSystem

open ApnaOS.Lib ApnaOS.StringOps
open Function (update update_self update_of_ne)

def Operation.name : Operation → List Byte
  | .createFile filename => filename.chars
  | .writeFile filename _ _ => filename.chars
  | .appendToFile filename _ _ => filename.chars
  | .readFile filename _ _ => filename.chars
  | .deleteFile filename => filename.chars
  | .chmodFile filename _ => filename.chars

/-- The answer to a call, without the number of a new inode. -/
def Operation.shown (operation : Operation) (answer : Answer) : Answer :=
  match operation with
  | .createFile _ => ⟨answer.result.map fun _ => 0, answer.bytes⟩
  | _ => answer

/-- `create_file` is called for a name that is not there, and there is room for it. -/
def Operation.Fresh (disk : Disk) : Operation → Prop
  | .createFile filename =>
      lookup disk filename = none ∧ (FileSystem.createFile disk filename).1 ≠ none
  | _ => True

def FreshCreates (disk : Disk) : List Operation → Prop
  | [] => True
  | operation :: rest =>
      operation.Fresh disk ∧ FreshCreates (perform disk operation).2 rest

instance (disk : Disk) (operation : Operation) : Decidable (operation.Fresh disk) :=
  match operation with
  | .createFile _ => inferInstanceAs (Decidable (_ ∧ _ ≠ _))
  | .writeFile _ _ _ | .appendToFile _ _ _ | .readFile _ _ _ | .deleteFile _ | .chmodFile _ _ =>
      .isTrue trivial

def decideFreshCreates (disk : Disk) :
    (operations : List Operation) → Decidable (FreshCreates disk operations)
  | [] => .isTrue trivial
  | operation :: rest =>
      have := decideFreshCreates (perform disk operation).2 rest
      inferInstanceAs (Decidable (_ ∧ _))

instance (disk : Disk) (operations : List Operation) :
    Decidable (FreshCreates disk operations) := decideFreshCreates disk operations

/-- The answers to the calls on some of the names. -/
def answersOn (mine : List Byte → Bool) (disk : Disk) : List Operation → List Answer
  | [] => []
  | operation :: rest =>
      let later := answersOn mine (perform disk operation).2 rest
      if mine operation.name then operation.shown (answer disk operation) :: later else later

/-! ## One file -/

def Record.core (record : Record) : Record := { record with inode := 0 }

@[simp] theorem Record.core_file (record : Record) : record.core.file = record.file := rfl

/-- What a call makes of a file, or of there being none. -/
def Operation.act (operation : Operation) : Record → Answer × Option Record :=
  match operation with
  | .createFile _ => fun record => (.failed, some record)
  | .writeFile _ buffer size => Catalog.guarded (checkPermissions · 1) fun record =>
      (⟨some (record.writable size), []⟩, some (record.write buffer size))
  | .appendToFile _ buffer size => Catalog.guarded (checkPermissions · 1) fun record =>
      if maxSize ≤ record.file.contents.length then (.failed, some record)
      else (⟨some (record.appendable size), []⟩, some (record.append buffer size))
  | .readFile _ _ size => Catalog.guarded (checkPermissions · 0) fun record =>
      (⟨some (min size record.file.contents.length), record.file.contents.take size⟩, some record)
  | .deleteFile _ => Catalog.guarded (checkPermissions · 1) fun _ => (⟨some 0, []⟩, none)
  | .chmodFile _ newPermissions => fun record =>
      (⟨some 0, []⟩, some (record.chmod newPermissions))

def Operation.alone (operation : Operation) (file : Option Record) : Answer × Option Record :=
  match operation with
  | .createFile filename => (⟨some 0, []⟩, some ⟨0, ⟨filename.chars, [], 0b111⟩, 1⟩)
  | _ =>
      match file with
      | none => (.failed, none)
      | some record => operation.act record

/-- The inode plays no role, and the name stays. -/
structure ActsOnCore (act : Record → Answer × Option Record) : Prop where
  answer : ∀ record, (act record).1 = (act record.core).1
  after : ∀ record, (act record).2.map Record.core = (act record.core).2.map Record.core
  name : ∀ record after, (act record).2 = some after → after.file.name = record.file.name

theorem ActsOnCore.guarded {permitted : UInt16 → Bool} {act : Record → Answer × Option Record}
    (core : ActsOnCore act) : ActsOnCore (Catalog.guarded permitted act) where
  answer record := by
    rw [Catalog.guarded, Catalog.guarded, Record.core_file]
    split
    · exact core.answer record
    · rfl
  after record := by
    rw [Catalog.guarded, Catalog.guarded, Record.core_file]
    split
    · exact core.after record
    · rfl
  name record after same := by
    rw [Catalog.guarded] at same
    split at same
    · exact core.name record after same
    · cases same
      rfl

theorem Operation.act_core (operation : Operation) : ActsOnCore operation.act := by
  cases operation with
  | createFile filename =>
      refine ⟨fun _ => rfl, fun _ => rfl, ?_⟩
      rintro record after ⟨⟩
      rfl
  | writeFile filename buffer size =>
      rw [Operation.act]
      apply ActsOnCore.guarded
      refine ⟨fun _ => rfl, fun _ => rfl, ?_⟩
      rintro record after ⟨⟩
      rfl
  | appendToFile filename buffer size =>
      rw [Operation.act]
      apply ActsOnCore.guarded
      constructor
      · intro record
        rw [Record.core_file]
        split <;> rfl
      · intro record
        rw [Record.core_file]
        split <;> rfl
      · intro record after same
        split at same <;> cases same <;> rfl
  | readFile filename buffer size =>
      rw [Operation.act]
      apply ActsOnCore.guarded
      refine ⟨fun _ => rfl, fun _ => rfl, ?_⟩
      rintro record after ⟨⟩
      rfl
  | deleteFile filename =>
      rw [Operation.act]
      apply ActsOnCore.guarded
      refine ⟨fun _ => rfl, fun _ => rfl, ?_⟩
      rintro record after ⟨⟩
  | chmodFile filename newPermissions =>
      refine ⟨fun _ => rfl, fun _ => rfl, ?_⟩
      rintro record after ⟨⟩
      rfl

/-! ## Names as keys -/

namespace Catalog

/-- No two files have one name, and there are no slots behind the last one. -/
structure Keyed (catalog : Catalog) : Prop where
  bounded : ∀ i record, catalog i = some record → i < maxFiles
  distinct : ∀ i j record other, catalog i = some record → catalog j = some other →
    record.file.name = other.file.name → i = j

def look (catalog : Catalog) (name : List Byte) : Option Record :=
  ((catalog.find name).bind catalog).map Record.core

theorem find_eq_some {catalog : Catalog} {name : List Byte} {i : Nat}
    (found : catalog.find name = some i) :
    ∃ record, catalog i = some record ∧ record.file.name = name := by
  obtain ⟨_, matched, _⟩ := (firstIndex_eq_some_iff _ _ _).mp found
  obtain ⟨record, holds, same⟩ := (Option.any_eq_true ..).mp matched
  exact ⟨record, holds, of_decide_eq_true same⟩

theorem Keyed.find {catalog : Catalog} (keyed : catalog.Keyed) {i : Nat} {record : Record}
    (holds : catalog i = some record) : catalog.find record.file.name = some i := by
  apply (firstIndex_eq_some_iff _ _ _).mpr
  have hit : ∀ j other, catalog j = some other → other.file.name = record.file.name → j = i :=
    fun j other holds' same => keyed.distinct j i other record holds' holds same
  refine ⟨keyed.bounded i record holds, ?_, ?_⟩
  · rw [holds]
    exact decide_eq_true rfl
  · intro j lower
    rw [Bool.eq_false_iff]
    intro matched
    obtain ⟨other, holds', same⟩ := (Option.any_eq_true ..).mp matched
    exact absurd (hit j other holds' (of_decide_eq_true same)) (Nat.ne_of_lt lower)

theorem Keyed.look_eq_some_iff {catalog : Catalog} (keyed : catalog.Keyed) {name : List Byte}
    {core : Record} : catalog.look name = some core ↔
      ∃ i record, catalog i = some record ∧ record.file.name = name ∧ record.core = core := by
  rw [look, Option.map_eq_some_iff]
  constructor
  · rintro ⟨record, bound, same⟩
    obtain ⟨i, found, holds⟩ := Option.bind_eq_some_iff.mp bound
    obtain ⟨record', holds', named⟩ := find_eq_some found
    rw [holds] at holds'
    cases holds'
    exact ⟨i, record, holds, named, same⟩
  · rintro ⟨i, record, holds, rfl, same⟩
    exact ⟨record, Option.bind_eq_some_iff.mpr ⟨i, keyed.find holds, holds⟩, same⟩

theorem look_eq_none_iff {catalog : Catalog} {name : List Byte} :
    catalog.look name = none ↔ catalog.find name = none := by
  rw [look, Option.map_eq_none_iff]
  cases found : catalog.find name with
  | none => exact iff_of_true rfl rfl
  | some i =>
      obtain ⟨record, holds, _⟩ := find_eq_some found
      rw [Option.bind_some, holds]
      exact iff_of_false (Option.some_ne_none _) (Option.some_ne_none _)

/-- A slot that is the only one of a name gets a file of this name or none. -/
theorem Keyed.update {catalog : Catalog} (keyed : catalog.Keyed) {i : Nat} {name : List Byte}
    {after : Option Record} (bound : i < maxFiles)
    (only : ∀ j record, catalog j = some record → record.file.name = name → j = i)
    (here : ∀ record, catalog i = some record → record.file.name = name)
    (named : ∀ record, after = some record → record.file.name = name) :
    Keyed (update catalog i after) ∧
      look (update catalog i after) = update catalog.look name (after.map Record.core) := by
  have keyed' : Keyed (Function.update catalog i after) := by
    constructor
    · intro j record holds
      by_cases same : j = i
      · exact same ▸ bound
      · rw [update_of_ne same] at holds
        exact keyed.bounded j record holds
    · intro j k record other holds holds' same
      by_cases first : j = i <;> by_cases second : k = i
      · rw [first, second]
      · rw [first, update_self] at holds
        rw [update_of_ne second] at holds'
        rw [first]
        exact (only k other holds' (same ▸ named record holds)).symm
      · rw [second, update_self] at holds'
        rw [update_of_ne first] at holds
        rw [second]
        exact only j record holds (same.trans (named other holds'))
      · rw [update_of_ne first] at holds
        rw [update_of_ne second] at holds'
        exact keyed.distinct j k record other holds holds' same
  refine ⟨keyed', ?_⟩
  funext name'
  apply Option.ext
  intro core
  rw [keyed'.look_eq_some_iff]
  by_cases mine : name' = name
  · rw [mine, update_self, Option.map_eq_some_iff]
    constructor
    · rintro ⟨j, record, holds, named', same⟩
      by_cases first : j = i
      · rw [first, update_self] at holds
        exact ⟨record, holds, same⟩
      · rw [update_of_ne first] at holds
        exact absurd (only j record holds named') first
    · rintro ⟨record, holds, same⟩
      exact ⟨i, record, by rw [update_self, holds], named record holds, same⟩
  · rw [update_of_ne mine, keyed.look_eq_some_iff]
    constructor
    · rintro ⟨j, record, holds, named', same⟩
      by_cases first : j = i
      · rw [first, update_self] at holds
        exact absurd (named'.symm.trans (named record holds)) mine
      · rw [update_of_ne first] at holds
        exact ⟨j, record, holds, named', same⟩
    · rintro ⟨j, record, holds, named', same⟩
      by_cases first : j = i
      · rw [first] at holds
        exact absurd (named'.symm.trans (here record holds)) mine
      · exact ⟨j, record, by rw [update_of_ne first, holds], named', same⟩

/-- A call on a name sees and changes only the file with this name. -/
theorem Keyed.onRecord {catalog : Catalog} (keyed : catalog.Keyed) (name : List Byte)
    {act : Record → Answer × Option Record} (core : ActsOnCore act) :
    (catalog.onRecord name act).1 =
        (match catalog.look name with
          | none => .failed
          | some record => (act record).1) ∧
      (catalog.onRecord name act).2.Keyed ∧
      (catalog.onRecord name act).2.look =
        Function.update catalog.look name ((catalog.look name).bind fun record =>
          (act record).2.map Record.core) := by
  cases found : catalog.find name with
  | none =>
      have missing := look_eq_none_iff.mpr found
      have unchanged : catalog.onRecord name act = (.failed, catalog) := by
        rw [Catalog.onRecord, found]
      rw [unchanged, missing]
      refine ⟨rfl, keyed, ?_⟩
      rw [Option.bind_none, ← missing, Function.update_eq_self]
  | some i =>
      obtain ⟨record, holds, rfl⟩ := find_eq_some found
      have looked : catalog.look record.file.name = some record.core :=
        keyed.look_eq_some_iff.mpr ⟨i, record, holds, rfl, rfl⟩
      have acted : catalog.onRecord record.file.name act =
          ((act record).1, Function.update catalog i (act record).2) := by
        rw [Catalog.onRecord, found]
        dsimp only
        rw [holds]
      rw [acted, looked, Option.bind_some, ← core.after]
      refine ⟨core.answer record, ?_⟩
      apply keyed.update (keyed.bounded i record holds)
      · exact fun j other holds' same => keyed.distinct j i other record holds' holds same
      · rintro other holds'
        rw [holds] at holds'
        cases holds'
        rfl
      · exact core.name record

def Accepts (catalog : Catalog) (operation : Operation) : Prop :=
  ∀ filename, operation = .createFile filename →
    catalog.look filename.chars = none ∧ (catalog.createFile filename.chars).1.result ≠ none

theorem Keyed.createFile {catalog : Catalog} (keyed : catalog.Keyed) {name : List Byte}
    (missing : catalog.look name = none) (room : (catalog.createFile name).1.result ≠ none) :
    (∃ k, (catalog.createFile name).1 = ⟨some k, []⟩) ∧ (catalog.createFile name).2.Keyed ∧
      (catalog.createFile name).2.look =
        Function.update catalog.look name (some ⟨0, ⟨name, [], 0b111⟩, 1⟩) := by
  rw [Catalog.createFile] at room ⊢
  split
  · rename_i k i _ slot
    obtain ⟨bound, free, _⟩ := (firstIndex_eq_some_iff _ _ _).mp slot
    have vacant : catalog i = none := Option.isNone_iff_eq_none.mp free
    refine ⟨⟨k, rfl⟩, keyed.update bound ?_ ?_ ?_⟩
    · intro j record holds same
      have looked := keyed.look_eq_some_iff.mpr ⟨j, record, holds, same, rfl⟩
      rw [missing] at looked
      cases looked
    · intro record holds
      rw [vacant] at holds
      cases holds
    · rintro record ⟨⟩
      rfl
  · rename_i none
    split at room
    · rename_i k i inode slot
      exact absurd slot (none k i inode)
    · exact absurd rfl room

structure Alone (catalog : Catalog) (operation : Operation) : Prop where
  answer : operation.shown (catalog.perform operation).1 =
    (operation.alone (catalog.look operation.name)).1
  keyed : (catalog.perform operation).2.Keyed
  look : (catalog.perform operation).2.look = Function.update catalog.look operation.name
    ((operation.alone (catalog.look operation.name)).2.map Record.core)

theorem Keyed.alone {catalog : Catalog} (keyed : catalog.Keyed) {operation : Operation}
    (calls : catalog.perform operation = catalog.onRecord operation.name operation.act)
    (shown : operation.shown (catalog.perform operation).1 = (catalog.perform operation).1)
    (missing : operation.alone none = (.failed, none))
    (present : ∀ record, operation.alone (some record) = operation.act record) :
    catalog.Alone operation := by
  obtain ⟨answer, keyed', look⟩ := keyed.onRecord operation.name operation.act_core
  rw [← calls] at answer keyed' look
  refine ⟨(shown.trans answer).trans ?_, keyed', look.trans ?_⟩
  · cases catalog.look operation.name with
    | none => rw [missing]
    | some record => rw [present]
  · cases catalog.look operation.name with
    | none =>
        rw [missing]
        rfl
    | some record =>
        rw [present]
        rfl

theorem Keyed.perform {catalog : Catalog} (keyed : catalog.Keyed) {operation : Operation}
    (accepts : catalog.Accepts operation) : catalog.Alone operation := by
  cases operation with
  | createFile filename =>
      obtain ⟨missing, room⟩ := accepts filename rfl
      obtain ⟨⟨k, created⟩, keyed', look⟩ := keyed.createFile missing room
      refine ⟨?_, keyed', look⟩
      show Operation.shown (.createFile filename) (catalog.createFile filename.chars).1 = _
      rw [created]
      rfl
  | writeFile | appendToFile | readFile | deleteFile | chmodFile =>
      exact keyed.alone rfl rfl rfl fun _ => rfl

theorem Keyed.room {catalog other : Catalog} (keyed : catalog.Keyed) (keyed' : other.Keyed)
    (fewer : ∀ name, other.look name ≠ none → catalog.look name ≠ none)
    (room : catalog.freeSlot ≠ none) : other.freeSlot ≠ none := by
  obtain ⟨i, slot⟩ := Option.ne_none_iff_exists'.mp room
  obtain ⟨bound, free, _⟩ := (firstIndex_eq_some_iff _ _ _).mp slot
  have vacant : catalog i = none := Option.isNone_iff_eq_none.mp free
  have few : ((Finset.range maxFiles).erase i).card < maxFiles := by
    rw [Finset.card_erase_of_mem (Finset.mem_range.mpr bound), Finset.card_range]
    omega
  let tag : Nat → Nat := fun j =>
    ((other j).bind fun record => catalog.find record.file.name).getD 0
  have tagged : ∀ j record, other j = some record →
      ∃ record', catalog (tag j) = some record' ∧ record'.file.name = record.file.name := by
    intro j record holds
    have looked := keyed'.look_eq_some_iff.mpr ⟨j, record, holds, rfl, rfl⟩
    have present : catalog.find record.file.name ≠ none := by
      rw [ne_eq, ← look_eq_none_iff]
      apply fewer
      rw [looked]
      exact Option.some_ne_none _
    obtain ⟨t, found⟩ := Option.ne_none_iff_exists'.mp present
    have here : tag j = t := by
      simp only [tag, holds, Option.bind_some, found, Option.getD_some]
    rw [here]
    exact find_eq_some found
  obtain ⟨j, bound', empty⟩ := exists_free_of_tagged maxFiles (fun j => other j ≠ none) tag _ few
    (by
      intro j _ taken
      obtain ⟨record, holds⟩ := Option.ne_none_iff_exists'.mp taken
      obtain ⟨record', holds', _⟩ := tagged j record holds
      rw [Finset.mem_erase, Finset.mem_range]
      refine ⟨?_, keyed.bounded _ record' holds'⟩
      intro same
      rw [same, vacant] at holds'
      cases holds')
    (by
      intro j k _ _ taken taken' same
      obtain ⟨record, holds⟩ := Option.ne_none_iff_exists'.mp taken
      obtain ⟨record', holds'⟩ := Option.ne_none_iff_exists'.mp taken'
      obtain ⟨owner, owns, named⟩ := tagged j record holds
      obtain ⟨owner', owns', named'⟩ := tagged k record' holds'
      rw [same, owns'] at owns
      cases owns
      exact keyed'.distinct j k record record' holds holds' (named.symm.trans named'))
  intro none
  have full := (firstIndex_eq_none_iff _ _).mp none j bound'
  rw [Option.isNone_iff_eq_none.mpr (not_not.mp empty)] at full
  cases full

end Catalog

/-! ## Runs -/

theorem Invariant.createFile_room {disk : Disk} (invariant : Invariant disk)
    (filename : FileName) :
    (createFile disk filename).1 ≠ none ↔ (catalogOf disk).freeSlot ≠ none := by
  rw [not_iff_not, invariant.createFile_none_iff, freeSlot_catalogOf]
  constructor
  · intro full
    rw [firstIndex_eq_none_iff] at full ⊢
    intro i bound
    have live : ∀ k, k < maxFiles → disk.number k ≠ 0 :=
      fun k inode => of_decide_eq_false (full k inode)
    exact decide_eq_false (invariant.directory.full live bound)
  · intro full
    cases scan : firstIndex maxFiles (fun k => decide (disk.number k = 0)) with
    | none => rfl
    | some k =>
        obtain ⟨i, b, chosen⟩ := invariant.chosen scan
        rw [chosen.entry] at full
        cases full

/-- The files with names of `mine` are alike. -/
structure Shares (mine : List Byte → Bool) (disk other : Disk) : Prop where
  invariant : Invariant disk
  invariant' : Invariant other
  keyed : (catalogOf disk).Keyed
  keyed' : (catalogOf other).Keyed
  look : ∀ name, (catalogOf other).look name =
    if mine name then (catalogOf disk).look name else none

section Steps

variable {mine : List Byte → Bool} {disk other : Disk} {operation : Operation}

theorem Operation.Fresh.accepts (fresh : operation.Fresh disk) (invariant : Invariant disk) :
    (catalogOf disk).Accepts operation := by
  rintro filename rfl
  obtain ⟨missing, room⟩ := fresh
  constructor
  · rw [Catalog.look_eq_none_iff, find_catalogOf invariant, missing]
  · have step := perform_catalog invariant (.createFile filename)
    rw [Catalog.perform] at step
    rw [← step]
    exact room

theorem Shares.accepts (shares : Shares mine disk other) (fresh : operation.Fresh disk)
    (own : mine operation.name = true) : operation.Fresh other := by
  cases operation with
  | createFile filename =>
      obtain ⟨missing, room⟩ := fresh
      constructor
      · rw [← find_catalogOf shares.invariant', ← Catalog.look_eq_none_iff, shares.look]
        rw [← find_catalogOf shares.invariant, ← Catalog.look_eq_none_iff] at missing
        rw [if_pos (show mine filename.chars = true from own), missing]
      · rw [shares.invariant'.createFile_room]
        rw [shares.invariant.createFile_room] at room
        apply shares.keyed.room shares.keyed' _ room
        intro name present
        rw [shares.look] at present
        split at present
        · exact present
        · exact absurd rfl present
  | writeFile | appendToFile | readFile | deleteFile | chmodFile => trivial

theorem Shares.step (shares : Shares mine disk other) (fresh : operation.Fresh disk)
    (own : mine operation.name = true) :
    operation.shown (answer disk operation) = operation.shown (answer other operation) ∧
      Shares mine (perform disk operation).2 (perform other operation).2 := by
  have fresh' := shares.accepts fresh own
  have alone := shares.keyed.perform (fresh.accepts shares.invariant)
  have alone' := shares.keyed'.perform (fresh'.accepts shares.invariant')
  have same : (catalogOf other).look operation.name = (catalogOf disk).look operation.name := by
    rw [shares.look, if_pos own]
  have step := Prod.ext_iff.mp (perform_catalog shares.invariant operation)
  have step' := Prod.ext_iff.mp (perform_catalog shares.invariant' operation)
  constructor
  · rw [show answer disk operation = _ from step.1, show answer other operation = _ from step'.1,
      alone.answer, alone'.answer, same]
  · have after : catalogOf (perform disk operation).2 = _ := step.2
    have after' : catalogOf (perform other operation).2 = _ := step'.2
    refine ⟨perform_invariant shares.invariant operation,
      perform_invariant shares.invariant' operation, ?_, ?_, ?_⟩
    · rw [after]
      exact alone.keyed
    · rw [after']
      exact alone'.keyed
    · intro name
      rw [after, after', alone.look, alone'.look, same]
      by_cases called : name = operation.name
      · rw [called, update_self, update_self, if_pos own]
      · rw [update_of_ne called, update_of_ne called, shares.look]

theorem Shares.skip (shares : Shares mine disk other) (fresh : operation.Fresh disk)
    (foreign : mine operation.name = false) : Shares mine (perform disk operation).2 other := by
  have alone := shares.keyed.perform (fresh.accepts shares.invariant)
  have after : catalogOf (perform disk operation).2 = _ :=
    (Prod.ext_iff.mp (perform_catalog shares.invariant operation)).2
  refine ⟨perform_invariant shares.invariant operation, shares.invariant', ?_, shares.keyed', ?_⟩
  · rw [after]
    exact alone.keyed
  · intro name
    rw [after, alone.look, shares.look]
    by_cases called : name = operation.name
    · rw [called, foreign]
      rfl
    · rw [update_of_ne called]

end Steps

theorem Shares.answers {mine : List Byte → Bool} {disk other : Disk}
    (shares : Shares mine disk other) {operations : List Operation}
    (fresh : FreshCreates disk operations) :
    answersOn mine disk operations = answersOn mine other
      (operations.filter fun operation => mine operation.name) := by
  induction operations generalizing disk other with
  | nil => rfl
  | cons operation rest ih =>
      obtain ⟨here, later⟩ := fresh
      rw [answersOn, List.filter_cons]
      cases own : mine operation.name with
      | true =>
          obtain ⟨same, shares'⟩ := shares.step here own
          rw [if_pos rfl, if_pos rfl, answersOn, own, if_pos rfl, same, ih shares' later]
      | false =>
          rw [if_neg Bool.false_ne_true, if_neg Bool.false_ne_true,
            ih (shares.skip here own) later]

theorem shares_format (mine : List Byte → Bool) (before before' : Disk) :
    Shares mine (formatDisk before) (formatDisk before') := by
  have keyed : Catalog.empty.Keyed := by
    constructor
    · intro i record holds
      cases holds
    · intro i j record other holds
      cases holds
  refine ⟨formatDisk_invariant before, formatDisk_invariant before', ?_, ?_, ?_⟩
  · rw [catalogOf_format]
    exact keyed
  · rw [catalogOf_format]
    exact keyed
  · intro name
    rw [catalogOf_format, catalogOf_format]
    have nothing : Catalog.empty.look name = none := by
      rw [Catalog.look_eq_none_iff, Catalog.find, firstIndex_eq_none_iff]
      exact fun _ _ => rfl
    rw [nothing, ite_self]

/-- In every run from `format_disk` in which files are created under new names and while there is
room, the calls on any set of names get the answers that they get when all other calls are left
out and the disk held something else before. -/
theorem files_independent (mine : List Byte → Bool) (before before' : Disk)
    (operations : List Operation) (fresh : FreshCreates (formatDisk before) operations) :
    answersOn mine (formatDisk before) operations = answersOn mine (formatDisk before')
      (operations.filter fun operation => mine operation.name) :=
  (shares_format mine before before').answers fresh

/-- `a` beside a file that is created, filled and deleted. -/
theorem files_independent_of_b :
    answersOn (fun name => decide (name = nameA.chars)) (formatDisk zeroDisk)
        [.createFile nameB, .createFile nameA, .writeFile nameA (fun _ => 7) 300,
          .writeFile nameB (fun _ => 8) 5000, .appendToFile nameA (fun _ => 9) 20,
          .deleteFile nameB, .readFile nameA (fun _ => 0) 400] =
      answersOn (fun name => decide (name = nameA.chars)) (formatDisk sevensDisk)
        [.createFile nameA, .writeFile nameA (fun _ => 7) 300,
          .appendToFile nameA (fun _ => 9) 20, .readFile nameA (fun _ => 0) 400] :=
  files_independent _ _ _ _ (by decide +kernel)

end ApnaOS.FileSystem
