import ApnaOS.FileSystem.Disk

/-!
# The abstract directory

What the file system is for: numbered slots that hold a name, a byte string and
permission bits.  Blocks, inodes and counters do not appear.  An operation on a
name acts on the first occupied slot with that name and on no other; a creation
fills the first vacant slot.
-/

set_option autoImplicit false

namespace ApnaOS.FileSystem

open ApnaOS.StringOps
open Function (update update_self update_of_ne update_eq_self)

structure File where
  name : List Byte
  contents : List Byte
  permissions : UInt16
  deriving DecidableEq

def File.readable (file : File) : Prop := file.permissions &&& 0b100 ≠ 0
def File.writable (file : File) : Prop := file.permissions &&& 0b010 ≠ 0

abbrev Directory := Nat → Option File

namespace Directory

def empty : Directory := fun _ => none

/-- Slot `i` holds `file`, and it is the first occupied slot with this name. -/
structure Finds (directory : Directory) (name : List Byte) (i : Nat) (file : File) : Prop where
  holds : directory i = some file
  named : file.name = name
  first : ∀ j other, j < i → directory j = some other → other.name ≠ name

def Absent (directory : Directory) (name : List Byte) : Prop :=
  ∀ i file, directory i = some file → file.name ≠ name

structure FirstVacant (directory : Directory) (i : Nat) : Prop where
  bound : i < maxFiles
  vacant : directory i = none
  first : ∀ j, j < i → directory j ≠ none

/-- No two occupied slots hold equal names. -/
def NamesDistinct (directory : Directory) : Prop :=
  ∀ i j file other, directory i = some file → directory j = some other →
    file.name = other.name → i = j

/-- The first `count` bytes of a buffer. -/
def firstBytes (buffer : Bytes) (count : Nat) : List Byte :=
  (List.range count).map buffer

/-- An operation on a name: `-1` and no change when it is absent, else `act` on
the file found, which also decides what its slot holds afterwards. -/
def OnFirst (before : Directory) (name : List Byte) (result : Option Nat) (after : Directory)
    (act : File → Option Nat → Option File → Prop) : Prop :=
  (before.Absent name ∧ result = none ∧ after = before) ∨
    ∃ i file file', before.Finds name i file ∧ act file result file' ∧
      after = update before i file'

/-- What a call may return and do to the directory. -/
def Step (before : Directory) : Operation → Option Nat → Directory → Prop
  | .createFile filename, result, after =>
      ((∀ i, i < maxFiles → before i ≠ none) ∧ result = none ∧ after = before) ∨
        ∃ i inode, before.FirstVacant i ∧ result = some inode ∧
          after = update before i (some ⟨filename.chars, [], 0b111⟩)
  | .writeFile filename buffer size, result, after =>
      before.OnFirst filename.chars result after fun file result file' =>
        (file.writable ∧ ∃ written, written ≤ size ∧ result = some written ∧
          file' = some { file with contents := firstBytes buffer written }) ∨
        (¬ file.writable ∧ result = none ∧ file' = some file)
  | .appendToFile filename buffer size, result, after =>
      before.OnFirst filename.chars result after fun file result file' =>
        (file.writable ∧ file.contents.length < maxSize ∧
          ∃ written, written ≤ size ∧ result = some written ∧
            file' = some { file with contents := file.contents ++ firstBytes buffer written }) ∨
        (file.writable ∧ maxSize ≤ file.contents.length ∧ result = none ∧ file' = some file) ∨
        (¬ file.writable ∧ result = none ∧ file' = some file)
  | .readFile filename _ size, result, after =>
      before.OnFirst filename.chars result after fun file result file' =>
        ((file.readable ∧ result = some (min size file.contents.length)) ∨
          (¬ file.readable ∧ result = none)) ∧ file' = some file
  | .deleteFile filename, result, after =>
      before.OnFirst filename.chars result after fun file result file' =>
        (file.writable ∧ result = some 0 ∧ file' = none) ∨
        (¬ file.writable ∧ result = none ∧ file' = some file)
  | .chmodFile filename newPermissions, result, after =>
      before.OnFirst filename.chars result after fun file result file' =>
        result = some 0 ∧ file' = some { file with permissions := newPermissions }

/-- What `read_file` leaves in the caller's buffer. -/
def Delivers (directory : Directory) (filename : FileName) (buffer : Bytes) (size : Nat)
    (result : Option Nat) (delivered : Bytes) : Prop :=
  (result = none ∧ delivered = buffer) ∨
    ∃ i file, directory.Finds filename.chars i file ∧ file.readable ∧
      result = some (min size file.contents.length) ∧
      firstBytes delivered (min size file.contents.length) = file.contents.take size ∧
      ∀ p, min size file.contents.length ≤ p → delivered p = buffer p

/-! ## Names as keys -/

theorem Finds.unique {directory : Directory} {name : List Byte} {i j : Nat} {file other : File}
    (here : directory.Finds name i file) (there : directory.Finds name j other) : i = j := by
  rcases Nat.lt_trichotomy i j with lower | same | higher
  · exact absurd here.named (there.first i file lower here.holds)
  · exact same
  · exact absurd there.named (here.first j other higher there.holds)

theorem Finds.not_absent {directory : Directory} {name : List Byte} {i : Nat} {file : File}
    (found : directory.Finds name i file) : ¬ directory.Absent name :=
  fun absent => absent i file found.holds found.named

theorem exists_finds {directory : Directory} {name : List Byte} (present : ¬ directory.Absent name) :
    ∃ i file, directory.Finds name i file := by
  classical
  unfold Absent at present
  push Not at present
  have somewhere : ∃ i, ∃ file, directory i = some file ∧ file.name = name := present
  obtain ⟨file, holds, named⟩ := Nat.find_spec somewhere
  refine ⟨Nat.find somewhere, file, holds, named, ?_⟩
  intro j other lower holds' named'
  exact Nat.find_min somewhere lower ⟨other, holds', named'⟩

theorem NamesDistinct.put {directory : Directory} (distinct : directory.NamesDistinct) {i : Nat}
    {file : File} {file' : Option File} (holds : directory i = some file)
    (renamed : ∀ other, file' = some other → other.name = file.name) :
    NamesDistinct (update directory i file') := by
  intro j k left right holdsLeft holdsRight same
  by_cases first : j = i <;> by_cases second : k = i
  · rw [first, second]
  · subst first
    rw [update_self] at holdsLeft
    rw [update_of_ne second] at holdsRight
    exact distinct j k file right holds holdsRight
      ((renamed left holdsLeft).symm.trans same)
  · subst second
    rw [update_self] at holdsRight
    rw [update_of_ne first] at holdsLeft
    exact distinct j k left file holdsLeft holds (same.trans (renamed right holdsRight))
  · rw [update_of_ne first] at holdsLeft
    rw [update_of_ne second] at holdsRight
    exact distinct j k left right holdsLeft holdsRight same

theorem namesDistinct_fill_iff {directory : Directory} (distinct : directory.NamesDistinct)
    {i : Nat} (vacant : directory i = none) (file : File) :
    NamesDistinct (update directory i (some file)) ↔ directory.Absent file.name := by
  constructor
  · intro kept j other holds named
    have different : j ≠ i := by
      intro same
      subst same
      rw [vacant] at holds
      cases holds
    exact different (kept j i other file (by rwa [update_of_ne different]) (by simp) named)
  · intro absent j k left right holdsLeft holdsRight same
    by_cases first : j = i <;> by_cases second : k = i
    · rw [first, second]
    · subst first
      rw [update_self] at holdsLeft
      rw [update_of_ne second] at holdsRight
      cases holdsLeft
      exact absurd same.symm (absent k right holdsRight)
    · subst second
      rw [update_self] at holdsRight
      rw [update_of_ne first] at holdsLeft
      cases holdsRight
      exact absurd same (absent j left holdsLeft)
    · rw [update_of_ne first] at holdsLeft
      rw [update_of_ne second] at holdsRight
      exact distinct j k left right holdsLeft holdsRight same

theorem OnFirst.namesDistinct {before after : Directory} {name : List Byte} {result : Option Nat}
    {act : File → Option Nat → Option File → Prop}
    (acted : before.OnFirst name result after act) (distinct : before.NamesDistinct)
    (renamed : ∀ file file' other, act file result file' → file' = some other →
      other.name = file.name) : after.NamesDistinct := by
  rcases acted with ⟨_, _, rfl⟩ | ⟨i, file, file', found, action, rfl⟩
  · exact distinct
  · exact distinct.put found.holds (fun other kept => renamed file file' other action kept)

/-- A slot filled before the one a name is found in takes the name over; a slot
filled after it does not. -/
theorem Finds.fill {directory : Directory} {name : List Byte} {i : Nat} {file : File}
    (found : directory.Finds name i file) {vacant : Nat} (free : directory vacant = none)
    (fresh : File) (named : fresh.name = name) :
    if vacant < i then Finds (update directory vacant (some fresh)) name vacant fresh
    else Finds (update directory vacant (some fresh)) name i file := by
  have different : i ≠ vacant := by
    intro same
    subst same
    rw [found.holds] at free
    cases free
  split
  · rename_i before
    refine ⟨by simp, named, ?_⟩
    intro j other lower holds
    rw [update_of_ne (by omega)] at holds
    exact found.first j other (by omega) holds
  · refine ⟨by rw [update_of_ne different, found.holds], found.named, ?_⟩
    intro j other lower holds
    rw [update_of_ne (by omega)] at holds
    exact found.first j other lower holds

end Directory

end ApnaOS.FileSystem
