import ApnaOS.FileSystem.Tables

/-!
# Reserving blocks and copying bytes

Closed forms for the two reservation blocks, and what the three copy loops do to
a file seen as one sequence of bytes over its block slots.  A block belongs to
one slot of one file, so a chunk written at a file offset changes exactly those
offsets of that file.
-/

set_option autoImplicit false

namespace ApnaOS.FileSystem

open ApnaOS.Lib ApnaOS.StringOps
open Function (update update_self update_of_ne)

/-! ## Reservation -/

def currentBlocks (disk : Disk) (k : Nat) : Nat :=
  max ((disk.size k + blockSize - 1) / blockSize) 1

/-- `write_file` ends up with the requested size, cut to the maximum and to the
blocks its size accounts for plus the slots that were still empty. -/
theorem reserveForWrite_grown {disk : Disk} {k c : Nat} (size : Nat) (file : k < maxFiles)
    (occupied : SlotPrefix (disk.blocks k) c)
    (consistent : BlocksConsistent disk.blocks disk.blockBitmap disk.sb.freeBlocks) :
    ∃ after added,
      reserveForWrite disk k size =
        (min (min size maxSize)
          ((currentBlocks disk k + (maxBlocksPerFile - c)) * blockSize), after) ∧
      added = min ((min size maxSize + blockSize - 1) / blockSize - currentBlocks disk k)
        (maxBlocksPerFile - c) ∧
      Grown disk k c added after := by
  have current : max (((disk.inodeTable k).size + blockSize - 1) / blockSize) 1 =
      currentBlocks disk k := rfl
  unfold reserveForWrite
  rw [current]
  generalize currentBlocks disk k = current
  generalize min size maxSize = writeSize
  by_cases needed : (((writeSize + blockSize - 1) / blockSize : Nat) : Int) - (current : Int) > 0
  · obtain ⟨after, result, grown⟩ := allocateBlocks_grown
      ((((writeSize + blockSize - 1) / blockSize : Nat) : Int) - (current : Int)).toNat
      file occupied consistent
    have required : ((((writeSize + blockSize - 1) / blockSize : Nat) : Int) -
        (current : Int)).toNat = (writeSize + blockSize - 1) / blockSize - current := by omega
    rw [required] at result grown
    simp only [if_pos needed, required, result]
    refine ⟨after, _, ?_, rfl, grown⟩
    unfold blockSize maxBlocksPerFile at *
    split <;> (rw [Prod.mk.injEq]; exact ⟨by omega, rfl⟩)
  · simp only [if_neg needed]
    refine ⟨disk, 0, ?_, ?_, Grown.refl occupied consistent⟩
    · rw [Prod.mk.injEq]
      refine ⟨?_, rfl⟩
      unfold blockSize at *
      omega
    · omega

/-- The room `append_to_file` counts on in the last block. -/
def spaceLeftInLast (currentSize : Nat) : Nat :=
  if currentSize % blockSize = 0 ∧ currentSize > 0 then 0
  else blockSize - currentSize % blockSize

theorem spaceLeftInLast_cases (currentSize : Nat) :
    (currentSize % blockSize = 0 ∧ currentSize > 0 ∧ spaceLeftInLast currentSize = 0) ∨
      ((currentSize % blockSize > 0 ∨ currentSize = 0) ∧
        spaceLeftInLast currentSize = blockSize - currentSize % blockSize) := by
  unfold spaceLeftInLast
  split
  · rename_i full
    exact Or.inl ⟨full.1, full.2, rfl⟩
  · exact Or.inr ⟨by omega, rfl⟩

/-- `append_to_file` ends up with the requested size, cut to the maximum and to
the room in the last block plus the slots that were still empty. -/
theorem reserveForAppend_grown {disk : Disk} {k c : Nat} (size : Nat) (file : k < maxFiles)
    (occupied : SlotPrefix (disk.blocks k) c)
    (consistent : BlocksConsistent disk.blocks disk.blockBitmap disk.sb.freeBlocks) :
    ∃ after added,
      reserveForAppend disk k size =
        (min (min size (maxSize - disk.size k))
          (spaceLeftInLast (disk.size k) + (maxBlocksPerFile - c) * blockSize), after) ∧
      added = min ((min size (maxSize - disk.size k) - spaceLeftInLast (disk.size k) +
        blockSize - 1) / blockSize) (maxBlocksPerFile - c) ∧
      Grown disk k c added after := by
  have current : (disk.inodeTable k).size = disk.size k := rfl
  have room : (if disk.size k % blockSize = 0 ∧ disk.size k > 0 then 0
      else blockSize - disk.size k % blockSize) = spaceLeftInLast (disk.size k) := rfl
  unfold reserveForAppend
  simp only [current, room]
  generalize spaceLeftInLast (disk.size k) = space
  generalize min size (maxSize - disk.size k) = appendSize
  have cut : (if appendSize > space then appendSize - space else 0) = appendSize - space := by
    split <;> omega
  rw [cut]
  generalize overflowed : appendSize - space = overflow
  by_cases needed : (overflow + blockSize - 1) / blockSize > 0
  · obtain ⟨after, result, grown⟩ := allocateBlocks_grown
      ((overflow + blockSize - 1) / blockSize) file occupied consistent
    simp only [if_pos needed, result]
    refine ⟨after, _, ?_, rfl, grown⟩
    unfold blockSize maxBlocksPerFile at *
    split <;> (rw [Prod.mk.injEq]; exact ⟨by omega, rfl⟩)
  · rw [if_neg needed]
    have nothing : overflow = 0 := by
      unfold blockSize at *
      omega
    refine ⟨disk, 0, ?_, by rw [nothing]; rfl, Grown.refl occupied consistent⟩
    rw [Prod.mk.injEq]
    exact ⟨by omega, rfl⟩

/-! ## A file as a sequence of bytes -/

/-- The byte at offset `p` of the concatenated blocks. -/
def fileByte (storage : Storage) (blocks : Nat → Option Nat) (p : Nat) : Byte :=
  match blocks (p / blockSize) with
  | some b => storage b (p % blockSize)
  | none => 0

def SlotsDistinct (blocks : Nat → Option Nat) : Prop :=
  ∀ j j' b, j < maxBlocksPerFile → j' < maxBlocksPerFile →
    blocks j = some b → blocks j' = some b → j = j'

theorem fileByte_congr (storage storage' : Storage) (blocks : Nat → Option Nat) (p : Nat)
    (same : ∀ b, blocks (p / blockSize) = some b → storage' b = storage b) :
    fileByte storage' blocks p = fileByte storage blocks p := by
  unfold fileByte
  cases slot : blocks (p / blockSize) with
  | none => rfl
  | some b => simp only [same b slot]

theorem fileByte_chunk (storage : Storage) (blocks : Nat → Option Nat)
    (distinct : SlotsDistinct blocks) (buffer : Bytes) (pos chunk s b p : Nat)
    (slot : pos / blockSize < maxBlocksPerFile) (holds : blocks (pos / blockSize) = some b)
    (room : pos % blockSize + chunk ≤ blockSize) (reach : p / blockSize < maxBlocksPerFile) :
    fileByte (update storage b (memcpy (storage b) (pos % blockSize) buffer s chunk)) blocks p =
      if pos ≤ p ∧ p < pos + chunk then buffer (s + (p - pos))
      else fileByte storage blocks p := by
  by_cases sameSlot : p / blockSize = pos / blockSize
  · have block : blocks (p / blockSize) = some b := by rw [sameSlot, holds]
    unfold fileByte
    simp only [block, update_self, memcpy_apply]
    unfold blockSize at *
    by_cases inside : pos ≤ p ∧ p < pos + chunk
    · rw [if_pos (by omega), if_pos inside]
      congr 2
      omega
    · rw [if_neg (by omega), if_neg inside]
  · have outside : ¬ (pos ≤ p ∧ p < pos + chunk) := by
      intro inside
      apply sameSlot
      unfold blockSize at *
      omega
    rw [if_neg outside]
    apply fileByte_congr
    intro b' block
    have different : b' ≠ b := by
      intro same
      subst same
      exact sameSlot (distinct _ _ b' reach slot block holds)
    exact update_of_ne different _ _

/-- `after` is `before` with bytes `from ≤ p < upto` of the file taken from
`buffer`, which holds offset `start` first; nothing else changes. -/
structure Copied (before after : Storage) (blocks : Nat → Option Nat) (buffer : Bytes)
    (start first upto : Nat) : Prop where
  inside : ∀ p, first ≤ p → p < upto → fileByte after blocks p = buffer (p - start)
  outside : ∀ p, p / blockSize < maxBlocksPerFile → p < first ∨ upto ≤ p →
    fileByte after blocks p = fileByte before blocks p
  elsewhere : ∀ b, (∀ j, j < maxBlocksPerFile → blocks j ≠ some b) → after b = before b

theorem Copied.refl (storage : Storage) (blocks : Nat → Option Nat) (buffer : Bytes)
    (start first : Nat) : Copied storage storage blocks buffer start first first where
  inside := by intro p lower upper; omega
  outside := fun _ _ _ => rfl
  elsewhere := fun _ _ => rfl

theorem Copied.chunk {storage after : Storage} {blocks : Nat → Option Nat}
    (distinct : SlotsDistinct blocks) {buffer : Bytes} {start pos upto b : Nat} (chunk : Nat)
    (begun : start ≤ pos) (slot : pos / blockSize < maxBlocksPerFile)
    (holds : blocks (pos / blockSize) = some b)
    (room : pos % blockSize + chunk ≤ blockSize) (within : pos + chunk ≤ upto)
    (limit : upto ≤ maxSize)
    (rest : Copied
      (update storage b (memcpy (storage b) (pos % blockSize) buffer (pos - start) chunk))
      after blocks buffer start (pos + chunk) upto) :
    Copied storage after blocks buffer start pos upto where
  inside := by
    intro p lower upper
    by_cases later : pos + chunk ≤ p
    · exact rest.inside p later upper
    · have reach : p / blockSize < maxBlocksPerFile := by
        unfold maxSize blockSize maxBlocksPerFile at *
        omega
      rw [rest.outside p reach (by omega),
        fileByte_chunk storage blocks distinct buffer pos chunk _ b p slot holds room reach,
        if_pos (by omega)]
      congr 1
      omega
  outside := by
    intro p reach away
    rw [rest.outside p reach (by omega),
      fileByte_chunk storage blocks distinct buffer pos chunk _ b p slot holds room reach,
      if_neg (by omega)]
  elsewhere := by
    intro b' unowned
    rw [rest.elsewhere b' unowned, update_of_ne]
    intro same
    subst same
    exact unowned _ slot holds

/-! ## The loops -/

theorem writeLoop_copied (inode : Inode) (buffer : Bytes) (writeSize c : Nat)
    (limit : writeSize ≤ maxSize) (occupied : SlotPrefix inode.blocks c)
    (distinct : SlotsDistinct inode.blocks) (n : Nat) :
    ∀ (j : Nat) (storage : Storage), j + n = maxBlocksPerFile → j ≤ c →
      ∃ after,
        writeLoop inode buffer writeSize (List.range' j n) (min writeSize (j * blockSize)) storage =
          (min writeSize (c * blockSize), after) ∧
        Copied storage after inode.blocks buffer 0 (min writeSize (j * blockSize))
          (min writeSize (c * blockSize)) := by
  induction n with
  | zero =>
      intro j storage reach ahead
      have last : c = j := by
        have := occupied.1
        omega
      subst last
      exact ⟨storage, rfl, Copied.refl ..⟩
  | succ n ih =>
      intro j storage reach ahead
      rw [List.range'_succ, writeLoop]
      by_cases more : min writeSize (j * blockSize) < writeSize
      · have here : min writeSize (j * blockSize) = j * blockSize := by omega
        rw [if_pos more, here]
        by_cases held : j < c
        · obtain ⟨b, holds⟩ := occupied.filled held
          have advanced : j * blockSize + min blockSize (writeSize - j * blockSize) =
              min writeSize ((j + 1) * blockSize) := by
            unfold blockSize at *
            omega
          have slotOf : j * blockSize / blockSize = j := Nat.mul_div_cancel j (by decide)
          have offsetOf : j * blockSize % blockSize = 0 := Nat.mul_mod_left j blockSize
          have within : min writeSize ((j + 1) * blockSize) ≤ min writeSize (c * blockSize) := by
            unfold blockSize at *
            omega
          simp only [holds, advanced]
          obtain ⟨after, result, copied⟩ := ih (j + 1)
            (update storage b (memcpy (storage b) 0 buffer (j * blockSize)
              (min blockSize (writeSize - j * blockSize)))) (by omega) held
          refine ⟨after, result, ?_⟩
          apply Copied.chunk distinct (min blockSize (writeSize - j * blockSize))
            (Nat.zero_le _) (by rw [slotOf]; omega) (by rw [slotOf]; exact holds)
            (by rw [offsetOf]; omega) (by rw [advanced]; exact within) (by omega)
          rwa [offsetOf, Nat.sub_zero, advanced]
        · have stop : j = c := by omega
          subst stop
          have empty : inode.blocks j = none := occupied.empty (by omega)
          simp only [empty]
          exact ⟨storage, by rw [here], by rw [here]; exact Copied.refl ..⟩
      · have done : min writeSize (j * blockSize) = min writeSize (c * blockSize) := by
          have larger : j * blockSize ≤ c * blockSize := Nat.mul_le_mul_right _ ahead
          omega
        rw [if_neg more, done]
        exact ⟨storage, rfl, Copied.refl ..⟩

theorem appendLoop_copied (inode : Inode) (buffer : Bytes) (currentSize appendSize c : Nat)
    (occupied : SlotPrefix inode.blocks c) (distinct : SlotsDistinct inode.blocks)
    (fits : currentSize + appendSize ≤ c * blockSize) (fuel : Nat) :
    ∀ (written : Nat) (storage : Storage), written ≤ appendSize → appendSize ≤ written + fuel →
      ∃ after,
        appendLoop inode buffer currentSize appendSize fuel written storage = (appendSize, after) ∧
        Copied storage after inode.blocks buffer currentSize (currentSize + written)
          (currentSize + appendSize) := by
  have slots := occupied.1
  have limit : currentSize + appendSize ≤ maxSize :=
    fits.trans (Nat.mul_le_mul_right blockSize slots)
  induction fuel with
  | zero =>
      intro written storage upper enough
      have done : written = appendSize := by omega
      subst done
      exact ⟨storage, rfl, Copied.refl ..⟩
  | succ fuel ih =>
      intro written storage upper enough
      rw [appendLoop]
      by_cases more : written < appendSize
      · rw [if_pos more]
        have slot : (currentSize + written) / blockSize < c := by
          unfold blockSize at *
          omega
        obtain ⟨b, holds⟩ := occupied.filled slot
        simp only [holds]
        generalize advance : min (blockSize - (currentSize + written) % blockSize)
          (appendSize - written) = chunk
        have inBlock : (currentSize + written) % blockSize < blockSize :=
          Nat.mod_lt _ (by decide)
        obtain ⟨after, result, copied⟩ := ih (written + chunk)
          (update storage b (memcpy (storage b) ((currentSize + written) % blockSize) buffer
            written chunk)) (by omega) (by omega)
        refine ⟨after, result, ?_⟩
        apply Copied.chunk distinct chunk (Nat.le_add_right _ _) (by omega) holds
          (by omega) (by omega) limit
        rwa [Nat.add_sub_cancel_left, Nat.add_assoc]
      · have done : written = appendSize := by omega
        subst done
        rw [if_neg more]
        exact ⟨storage, rfl, Copied.refl ..⟩

/-- `read_file` copies the first `readSize` bytes of the file and leaves the rest
of the caller's buffer alone. -/
theorem readLoop_reads (storage : Storage) (inode : Inode) (readSize c : Nat)
    (occupied : SlotPrefix inode.blocks c) (fits : readSize ≤ c * blockSize) (fuel : Nat) :
    ∀ (read : Nat) (buffer : Bytes), read ≤ readSize → readSize ≤ read + fuel →
      ∃ result,
        readLoop storage inode readSize fuel read buffer = (readSize, result) ∧
        ∀ p, result p =
          if read ≤ p ∧ p < readSize then fileByte storage inode.blocks p else buffer p := by
  induction fuel with
  | zero =>
      intro read buffer upper enough
      have done : read = readSize := by omega
      subst done
      exact ⟨buffer, rfl, fun p => by rw [if_neg (by omega)]⟩
  | succ fuel ih =>
      intro read buffer upper enough
      rw [readLoop]
      by_cases more : read < readSize
      · rw [if_pos more]
        have slot : read / blockSize < c := by
          unfold blockSize at *
          omega
        obtain ⟨b, holds⟩ := occupied.filled slot
        simp only [holds]
        generalize advance : min (blockSize - read % blockSize) (readSize - read) = chunk
        have inBlock : read % blockSize < blockSize := Nat.mod_lt _ (by decide)
        obtain ⟨result, run, bytes⟩ := ih (read + chunk)
          (memcpy buffer read (storage b) (read % blockSize) chunk) (by omega) (by omega)
        refine ⟨result, run, fun p => ?_⟩
        rw [bytes p, memcpy_apply]
        by_cases later : read + chunk ≤ p ∧ p < readSize
        · rw [if_pos later, if_pos (by omega)]
        · rw [if_neg later]
          by_cases now : read ≤ p ∧ p < read + chunk
          · have sameSlot : p / blockSize = read / blockSize := by
              unfold blockSize at *
              omega
            have offset : read % blockSize + (p - read) = p % blockSize := by
              unfold blockSize at *
              omega
            rw [if_pos now, if_pos (by omega), offset]
            simp only [fileByte, sameSlot, holds]
          · rw [if_neg now, if_neg (by omega)]
      · have done : read = readSize := by omega
        subst done
        rw [if_neg more]
        exact ⟨buffer, rfl, fun p => by rw [if_neg (by omega)]⟩

end ApnaOS.FileSystem
