import ApnaOS.FileSystem.Disk

/-!
# What the allocation functions do to the four tables

The invariant of the disk is kept in three parts, each about a few columns of
the tables only: the directory against the inode numbers, the block slots
against the bitmap, and each inode's slots against its size.  The two block
primitives, taking a free block into an empty slot and releasing one, preserve
the second part; `allocate_blocks` is a sequence of the first.
-/

set_option autoImplicit false

namespace ApnaOS.FileSystem

open ApnaOS.Lib ApnaOS.StringOps
open Function (update update_self update_of_ne update_idem update_eq_self)

/-! ## Columns of the tables -/

def Disk.number (disk : Disk) (k : Nat) : Nat := (disk.inodeTable k).inodeNumber
def Disk.blocks (disk : Disk) (k : Nat) : Nat → Option Nat := (disk.inodeTable k).blocks
def Disk.size (disk : Disk) (k : Nat) : Nat := (disk.inodeTable k).size
def Disk.entryNumber (disk : Disk) (i : Nat) : Nat := (disk.rootDirectory i).inodeNumber

theorem number_setInode (disk : Disk) (k : Nat) (inode : Inode) :
    (disk.setInode k inode).number = update disk.number k inode.inodeNumber := by
  funext j
  by_cases same : j = k
  · subst same; simp [Disk.number, Disk.setInode]
  · simp [Disk.number, Disk.setInode, same]

theorem blocks_setInode (disk : Disk) (k : Nat) (inode : Inode) :
    (disk.setInode k inode).blocks = update disk.blocks k inode.blocks := by
  funext j
  by_cases same : j = k
  · subst same; simp [Disk.blocks, Disk.setInode]
  · simp [Disk.blocks, Disk.setInode, same]

theorem size_setInode (disk : Disk) (k : Nat) (inode : Inode) :
    (disk.setInode k inode).size = update disk.size k inode.size := by
  funext j
  by_cases same : j = k
  · subst same; simp [Disk.size, Disk.setInode]
  · simp [Disk.size, Disk.setInode, same]

/-- The disk with the block slots of one inode, the bitmap and the free-block
counter replaced: all that allocating blocks to an existing file changes. -/
def Disk.withBlocks (disk : Disk) (k : Nat) (blocks : Nat → Option Nat)
    (bitmap : Nat → Nat) (freeBlocks : Nat) : Disk :=
  { disk with
    sb := { disk.sb with freeBlocks := freeBlocks }
    inodeTable := update disk.inodeTable k { disk.inodeTable k with blocks := blocks }
    blockBitmap := bitmap }

theorem withBlocks_self (disk : Disk) (k : Nat) :
    disk.withBlocks k (disk.blocks k) disk.blockBitmap disk.sb.freeBlocks = disk := by
  simp [Disk.withBlocks, Disk.blocks]

@[simp] theorem withBlocks_withBlocks (disk : Disk) (k : Nat) (blocks blocks' : Nat → Option Nat)
    (bitmap bitmap' : Nat → Nat) (freeBlocks freeBlocks' : Nat) :
    (disk.withBlocks k blocks bitmap freeBlocks).withBlocks k blocks' bitmap' freeBlocks' =
      disk.withBlocks k blocks' bitmap' freeBlocks' := by
  simp [Disk.withBlocks]

@[simp] theorem blocks_withBlocks (disk : Disk) (k : Nat) (blocks : Nat → Option Nat)
    (bitmap : Nat → Nat) (freeBlocks : Nat) :
    (disk.withBlocks k blocks bitmap freeBlocks).blocks = update disk.blocks k blocks :=
  blocks_setInode disk k { disk.inodeTable k with blocks := blocks }

@[simp] theorem number_withBlocks (disk : Disk) (k : Nat) (blocks : Nat → Option Nat)
    (bitmap : Nat → Nat) (freeBlocks : Nat) :
    (disk.withBlocks k blocks bitmap freeBlocks).number = disk.number :=
  (number_setInode disk k { disk.inodeTable k with blocks := blocks }).trans
    (update_eq_self k disk.number)

@[simp] theorem size_withBlocks (disk : Disk) (k : Nat) (blocks : Nat → Option Nat)
    (bitmap : Nat → Nat) (freeBlocks : Nat) :
    (disk.withBlocks k blocks bitmap freeBlocks).size = disk.size :=
  (size_setInode disk k { disk.inodeTable k with blocks := blocks }).trans
    (update_eq_self k disk.size)

@[simp] theorem inodeTable_withBlocks (disk : Disk) (k : Nat) (blocks : Nat → Option Nat)
    (bitmap : Nat → Nat) (freeBlocks : Nat) :
    (disk.withBlocks k blocks bitmap freeBlocks).inodeTable k =
      { disk.inodeTable k with blocks := blocks } := by
  simp [Disk.withBlocks]

/-! ## Counters -/

theorem decrement_succ (count : Nat) : decrement (count + 1) = count := by
  simp [decrement]

theorem increment_small (count : Nat) (small : count < 2 ^ 32 - 1) :
    increment count = count + 1 := by
  rw [increment, if_neg (by omega)]

/-! ## Blocks against the bitmap -/

/-- Every slot that holds a block holds a marked one, every marked block sits in
a slot, no block sits in two, and the counter counts the unmarked ones. -/
structure BlocksConsistent (blocks : Nat → Nat → Option Nat) (bitmap : Nat → Nat)
    (freeBlocks : Nat) : Prop where
  bit : ∀ b, b < blockCount → bitmap b = 0 ∨ bitmap b = 1
  marked : ∀ k j b, k < maxFiles → j < maxBlocksPerFile → blocks k j = some b →
    b < blockCount ∧ bitmap b = 1
  owned : ∀ b, b < blockCount → bitmap b = 1 →
    ∃ k j, k < maxFiles ∧ j < maxBlocksPerFile ∧ blocks k j = some b
  unshared : ∀ k j k' j' b, k < maxFiles → j < maxBlocksPerFile → k' < maxFiles →
    j' < maxBlocksPerFile → blocks k j = some b → blocks k' j' = some b → k = k' ∧ j = j'
  counted : freeBlocks = Nat.count (fun b => bitmap b = 0) blockCount

def putSlot (blocks : Nat → Nat → Option Nat) (k j : Nat) (block : Option Nat) :
    Nat → Nat → Option Nat :=
  update blocks k (update (blocks k) j block)

theorem putSlot_apply (blocks : Nat → Nat → Option Nat) (k j : Nat) (block : Option Nat)
    (k' j' : Nat) :
    putSlot blocks k j block k' j' = if k' = k ∧ j' = j then block else blocks k' j' := by
  unfold putSlot
  by_cases file : k' = k
  · subst file
    by_cases slot : j' = j
    · subst slot; simp
    · simp [slot]
  · simp [file]

/-- An empty slot anywhere leaves a block unmarked: there are as many blocks as
slots, and no two slots share one. -/
theorem BlocksConsistent.exists_free {blocks : Nat → Nat → Option Nat} {bitmap : Nat → Nat}
    {freeBlocks : Nat} (consistent : BlocksConsistent blocks bitmap freeBlocks) {k j : Nat}
    (file : k < maxFiles) (slot : j < maxBlocksPerFile) (empty : blocks k j = none) :
    ∃ b, b < blockCount ∧ bitmap b = 0 := by
  obtain ⟨b, bound, unmarked⟩ := exists_free_of_empty_slot maxFiles maxBlocksPerFile blockCount
    (by decide) (fun b => bitmap b = 1) blocks consistent.owned file slot empty
  rcases consistent.bit b bound with zero | one
  · exact ⟨b, bound, zero⟩
  · exact absurd one unmarked

theorem BlocksConsistent.take {blocks : Nat → Nat → Option Nat} {bitmap : Nat → Nat}
    {freeBlocks : Nat} (consistent : BlocksConsistent blocks bitmap freeBlocks) {k j b : Nat}
    (file : k < maxFiles) (slot : j < maxBlocksPerFile) (empty : blocks k j = none)
    (bound : b < blockCount) (free : bitmap b = 0) :
    BlocksConsistent (putSlot blocks k j (some b)) (update bitmap b 1) (decrement freeBlocks) where
  bit := by
    intro c below
    by_cases same : c = b
    · subst same; simp
    · simpa [same] using consistent.bit c below
  marked := by
    intro k' j' c file' slot' holds
    rw [putSlot_apply] at holds
    split at holds
    · cases holds; exact ⟨bound, by simp⟩
    · have old := consistent.marked k' j' c file' slot' holds
      have different : c ≠ b := by
        intro same
        subst same
        omega
      exact ⟨old.1, by simpa [different] using old.2⟩
  owned := by
    intro c below one
    by_cases same : c = b
    · subst same
      exact ⟨k, j, file, slot, by simp [putSlot_apply]⟩
    · rw [update_of_ne same] at one
      obtain ⟨k', j', file', slot', holds⟩ := consistent.owned c below one
      refine ⟨k', j', file', slot', ?_⟩
      rw [putSlot_apply, if_neg, holds]
      rintro ⟨rfl, rfl⟩
      rw [empty] at holds
      cases holds
  unshared := by
    intro k₁ j₁ k₂ j₂ c file₁ slot₁ file₂ slot₂ holds₁ holds₂
    have fresh : ∀ k' j', k' < maxFiles → j' < maxBlocksPerFile → blocks k' j' ≠ some b := by
      intro k' j' file' slot' holds
      have := (consistent.marked k' j' b file' slot' holds).2
      omega
    rw [putSlot_apply] at holds₁ holds₂
    split at holds₁ <;> split at holds₂
    · rename_i here there
      exact ⟨here.1.trans there.1.symm, here.2.trans there.2.symm⟩
    · cases holds₁
      exact absurd holds₂ (fresh k₂ j₂ file₂ slot₂)
    · cases holds₂
      exact absurd holds₁ (fresh k₁ j₁ file₁ slot₁)
    · exact consistent.unshared k₁ j₁ k₂ j₂ c file₁ slot₁ file₂ slot₂ holds₁ holds₂
  counted := by
    have lowered := count_eq_succ_of_cleared blockCount (fun c => bitmap c = 0)
      (fun c => update bitmap b 1 c = 0) b bound free (by simp)
      (by intro c _ different; simp [different])
    rw [consistent.counted, lowered, decrement_succ]

theorem BlocksConsistent.release {blocks : Nat → Nat → Option Nat} {bitmap : Nat → Nat}
    {freeBlocks : Nat} (consistent : BlocksConsistent blocks bitmap freeBlocks) {k j b : Nat}
    (file : k < maxFiles) (slot : j < maxBlocksPerFile) (holds : blocks k j = some b) :
    BlocksConsistent (putSlot blocks k j none) (update bitmap b 0) (increment freeBlocks) where
  bit := by
    intro c below
    by_cases same : c = b
    · subst same; simp
    · simpa [same] using consistent.bit c below
  marked := by
    intro k' j' c file' slot' holds'
    rw [putSlot_apply] at holds'
    split at holds'
    · cases holds'
    · rename_i elsewhere
      have different : c ≠ b := by
        intro same
        subst same
        obtain ⟨rfl, rfl⟩ := consistent.unshared k' j' k j c file' slot' file slot holds' holds
        exact elsewhere ⟨rfl, rfl⟩
      have old := consistent.marked k' j' c file' slot' holds'
      exact ⟨old.1, by simpa [different] using old.2⟩
  owned := by
    intro c below one
    by_cases same : c = b
    · subst same; simp at one
    · rw [update_of_ne same] at one
      obtain ⟨k', j', file', slot', holds'⟩ := consistent.owned c below one
      refine ⟨k', j', file', slot', ?_⟩
      rw [putSlot_apply, if_neg, holds']
      rintro ⟨rfl, rfl⟩
      rw [holds] at holds'
      exact same (Option.some.inj holds').symm
  unshared := by
    intro k₁ j₁ k₂ j₂ c file₁ slot₁ file₂ slot₂ holds₁ holds₂
    rw [putSlot_apply] at holds₁ holds₂
    split at holds₁
    · cases holds₁
    · split at holds₂
      · cases holds₂
      · exact consistent.unshared k₁ j₁ k₂ j₂ c file₁ slot₁ file₂ slot₂ holds₁ holds₂
  counted := by
    obtain ⟨bound, one⟩ := consistent.marked k j b file slot holds
    have raised := count_eq_succ_of_cleared blockCount (fun c => update bitmap b 0 c = 0)
      (fun c => bitmap c = 0) b bound (by simp) (by simp [one])
      (by intro c _ different; simp [different])
    have small : Nat.count (fun c => bitmap c = 0) blockCount ≤ blockCount := Nat.count_le _
    rw [consistent.counted, raised, increment_small]
    unfold blockCount at small ⊢
    omega

/-! ## allocate_block and allocate_blocks -/

theorem allocateBlock_of_free (disk : Disk)
    (free : ∃ b, b < blockCount ∧ disk.blockBitmap b = 0) :
    ∃ b, b < blockCount ∧ disk.blockBitmap b = 0 ∧
      allocateBlock disk =
        (some b, (disk.setBitmap b 1).setFreeBlocks (decrement disk.sb.freeBlocks)) := by
  obtain ⟨b, bound, zero⟩ := free
  obtain ⟨first, scan⟩ := firstIndex_isSome_of blockCount
    (fun b => decide (disk.blockBitmap b = 0)) b bound (by simpa using zero)
  obtain ⟨firstBound, firstZero, _⟩ := (firstIndex_eq_some_iff _ _ _).mp scan
  refine ⟨first, firstBound, by simpa using firstZero, ?_⟩
  unfold allocateBlock
  rw [scan]

/-- The occupied slots of an inode are the first `c`. -/
def SlotPrefix (blocks : Nat → Option Nat) (c : Nat) : Prop :=
  c ≤ maxBlocksPerFile ∧ ∀ j, j < maxBlocksPerFile → (blocks j ≠ none ↔ j < c)

theorem SlotPrefix.empty {blocks : Nat → Option Nat} {c : Nat} (occupied : SlotPrefix blocks c)
    (room : c < maxBlocksPerFile) : blocks c = none := by
  by_contra filled
  exact Nat.lt_irrefl c ((occupied.2 c room).mp filled)

theorem SlotPrefix.filled {blocks : Nat → Option Nat} {c j : Nat} (occupied : SlotPrefix blocks c)
    (lower : j < c) : ∃ b, blocks j = some b :=
  Option.ne_none_iff_exists'.mp ((occupied.2 j (Nat.lt_of_lt_of_le lower occupied.1)).mpr lower)

theorem SlotPrefix.extend {blocks : Nat → Option Nat} {c : Nat} (occupied : SlotPrefix blocks c)
    (room : c < maxBlocksPerFile) (b : Nat) :
    SlotPrefix (update blocks c (some b)) (c + 1) := by
  refine ⟨room, fun j slot => ?_⟩
  by_cases last : j = c
  · subst last; simp
  · rw [update_of_ne last, occupied.2 j slot]
    omega

/-- `after` is `disk` with `added` more blocks in the slots of inode `k`, which
held `c` before; the blocks already held stay in their slots. -/
def Grown (disk : Disk) (k c added : Nat) (after : Disk) : Prop :=
  ∃ blocks bitmap freeBlocks,
    after = disk.withBlocks k blocks bitmap freeBlocks ∧
      SlotPrefix blocks (c + added) ∧
      (∀ j, j < c → blocks j = disk.blocks k j) ∧
      BlocksConsistent (update disk.blocks k blocks) bitmap freeBlocks

theorem Grown.refl {disk : Disk} {k c : Nat} (occupied : SlotPrefix (disk.blocks k) c)
    (consistent : BlocksConsistent disk.blocks disk.blockBitmap disk.sb.freeBlocks) :
    Grown disk k c 0 disk :=
  ⟨disk.blocks k, disk.blockBitmap, disk.sb.freeBlocks, (withBlocks_self disk k).symm,
    occupied, fun _ _ => rfl, by rwa [update_eq_self]⟩

theorem Grown.trans {disk middle after : Disk} {k c added more : Nat}
    (first : Grown disk k c added middle) (second : Grown middle k (c + added) more after) :
    Grown disk k c (added + more) after := by
  obtain ⟨blocks, bitmap, freeBlocks, rfl, _, kept, _⟩ := first
  obtain ⟨blocks', bitmap', freeBlocks', rfl, occupied', kept', consistent'⟩ := second
  refine ⟨blocks', bitmap', freeBlocks', withBlocks_withBlocks .., ?_, ?_, ?_⟩
  · rwa [← Nat.add_assoc]
  · intro j lower
    rw [kept' j (by omega), blocks_withBlocks, update_self, kept j lower]
  · simpa using consistent'

theorem allocateBlock_grown {disk : Disk} {k c : Nat} (file : k < maxFiles)
    (room : c < maxBlocksPerFile) (occupied : SlotPrefix (disk.blocks k) c)
    (consistent : BlocksConsistent disk.blocks disk.blockBitmap disk.sb.freeBlocks) :
    ∃ b marked, allocateBlock disk = (some b, marked) ∧
      Grown disk k c 1 (marked.setSlot k c (some b)) := by
  have empty := occupied.empty room
  obtain ⟨b, bound, zero, success⟩ :=
    allocateBlock_of_free disk (consistent.exists_free file room empty)
  refine ⟨b, _, success, update (disk.blocks k) c (some b), update disk.blockBitmap b 1,
    decrement disk.sb.freeBlocks, rfl, occupied.extend room b, ?_, ?_⟩
  · intro j lower
    rw [update_of_ne (by omega)]
  · exact consistent.take file room empty bound zero

theorem allocateBlocksFrom_grown (k required : Nat) (file : k < maxFiles) (n : Nat) :
    ∀ (i c allocated : Nat) (disk : Disk), i + n = maxBlocksPerFile → i ≤ c →
      SlotPrefix (disk.blocks k) c →
      BlocksConsistent disk.blocks disk.blockBitmap disk.sb.freeBlocks →
      ∃ after,
        allocateBlocksFrom k required (List.range' i n) allocated disk =
          (allocated + min (required - allocated) (maxBlocksPerFile - c), after) ∧
        Grown disk k c (min (required - allocated) (maxBlocksPerFile - c)) after := by
  induction n with
  | zero =>
      intro i c allocated disk reach ahead occupied consistent
      have full : maxBlocksPerFile - c = 0 := by omega
      rw [full, Nat.min_zero]
      exact ⟨disk, rfl, Grown.refl occupied consistent⟩
  | succ n ih =>
      intro i c allocated disk reach ahead occupied consistent
      rw [List.range'_succ, allocateBlocksFrom]
      by_cases wanted : allocated < required
      · rw [if_pos wanted]
        by_cases held : i < c
        · -- an occupied slot is passed over
          obtain ⟨b, holds⟩ := occupied.filled held
          have filled : (disk.inodeTable k).blocks i = some b := holds
          simp only [filled]
          exact ih (i + 1) c allocated disk (by omega) held occupied consistent
        · have here : i = c := by omega
          subst here
          have room : i < maxBlocksPerFile := by omega
          have empty : (disk.inodeTable k).blocks i = none := occupied.empty room
          obtain ⟨b, marked, success, grown⟩ := allocateBlock_grown file room occupied consistent
          simp only [empty, success]
          obtain ⟨_, _, _, after_one, occupied', _, consistent'⟩ := id grown
          obtain ⟨after, result, later⟩ := ih (i + 1) (i + 1) (allocated + 1)
            (marked.setSlot k i (some b)) (by omega) (Nat.le_refl _)
            (by rwa [after_one, blocks_withBlocks, update_self])
            (by rwa [after_one, blocks_withBlocks])
          have total : min (required - allocated) (maxBlocksPerFile - i) =
              1 + min (required - (allocated + 1)) (maxBlocksPerFile - (i + 1)) := by omega
          refine ⟨after, ?_, ?_⟩
          · rw [result, total, Nat.add_assoc]
          · rw [total]
            exact grown.trans later
      · have nothing : required - allocated = 0 := by omega
        rw [if_neg wanted, nothing, Nat.zero_min]
        exact ⟨disk, rfl, Grown.refl occupied consistent⟩

/-- `allocate_blocks` fills as many of the empty slots as it is asked to; the
disk never runs out of blocks before the inode runs out of slots. -/
theorem allocateBlocks_grown {disk : Disk} {k c : Nat} (required : Nat) (file : k < maxFiles)
    (occupied : SlotPrefix (disk.blocks k) c)
    (consistent : BlocksConsistent disk.blocks disk.blockBitmap disk.sb.freeBlocks) :
    ∃ after,
      allocateBlocks disk k required = (min required (maxBlocksPerFile - c), after) ∧
      Grown disk k c (min required (maxBlocksPerFile - c)) after := by
  have spec := allocateBlocksFrom_grown k required file maxBlocksPerFile 0 c 0 disk (by omega)
    (by omega) occupied consistent
  simpa [allocateBlocks, List.range_eq_range'] using spec

end ApnaOS.FileSystem
