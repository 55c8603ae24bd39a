import ApnaOS.FileSystem.Lengths

/-!
# Appending in pieces

Two appends, one behind the other, do what one append of both does: the blocks asked for
and the bytes accepted are differences of positions, so they add up.
-/

set_option autoImplicit false

namespace ApnaOS.FileSystem

open ApnaOS.Lib ApnaOS.StringOps
open Function (update update_self update_of_ne update_idem)

/-! ## Allocating in pieces -/

section Allocation

variable {disk : Disk} {k j b required allocated : Nat} {slots : List Nat}

def takeBlock (disk : Disk) (k j b : Nat) : Disk :=
  ((disk.setBitmap b 1).setFreeBlocks (decrement disk.sb.freeBlocks)).setSlot k j (some b)

theorem blocks_takeBlock (disk : Disk) (k j b : Nat) :
    (takeBlock disk k j b).blocks k = update (disk.blocks k) j (some b) := by
  rw [takeBlock, Disk.setSlot, blocks_setInode, update_self]
  rfl

theorem allocateBlock_eq (disk : Disk) :
    allocateBlock disk = ((allocateBlock disk).1, (allocateBlock disk).1.elim disk fun b =>
      (disk.setBitmap b 1).setFreeBlocks (decrement disk.sb.freeBlocks)) := by
  rw [allocateBlock]
  split <;> rfl

theorem allocateBlock_fst (disk : Disk) : (allocateBlock disk).1 =
    firstIndex blockCount fun b => decide (disk.blockBitmap b = 0) := by
  rw [allocateBlock]
  split
  · rename_i scan
    exact scan.symm
  · rename_i scan
    exact scan.symm

theorem allocateBlocksFrom_enough (enough : required ≤ allocated) (slots : List Nat) (disk : Disk) :
    allocateBlocksFrom k required slots allocated disk = (allocated, disk) := by
  cases slots with
  | nil => rfl
  | cons j rest => rw [allocateBlocksFrom, if_neg (Nat.not_lt_of_le enough)]

theorem allocateBlocksFrom_filled (filled : disk.blocks k j = some b) :
    allocateBlocksFrom k required (j :: slots) allocated disk =
      allocateBlocksFrom k required slots allocated disk := by
  have slot : (disk.inodeTable k).blocks j = some b := filled
  by_cases wanted : allocated < required
  · rw [allocateBlocksFrom, if_pos wanted, slot]
  · rw [allocateBlocksFrom_enough (Nat.le_of_not_lt wanted),
      allocateBlocksFrom_enough (Nat.le_of_not_lt wanted)]

theorem allocateBlocksFrom_failed (empty : disk.blocks k j = none)
    (failed : (allocateBlock disk).1 = none) :
    allocateBlocksFrom k required (j :: slots) allocated disk = (allocated, disk) := by
  have slot : (disk.inodeTable k).blocks j = none := empty
  rw [allocateBlocksFrom, slot]
  dsimp only
  rw [allocateBlock_eq, failed]
  split <;> rfl

theorem allocateBlocksFrom_taken (empty : disk.blocks k j = none)
    (taken : (allocateBlock disk).1 = some b) (wanted : allocated < required) :
    allocateBlocksFrom k required (j :: slots) allocated disk =
      allocateBlocksFrom k required slots (allocated + 1) (takeBlock disk k j b) := by
  have slot : (disk.inodeTable k).blocks j = none := empty
  rw [allocateBlocksFrom, if_pos wanted, slot]
  dsimp only
  rw [allocateBlock_eq, taken]
  rfl

theorem allocateBlocksFrom_keeps {i : Nat} (required : Nat) (slots : List Nat) (allocated : Nat)
    (held : disk.blocks k i = some b) :
    (allocateBlocksFrom k required slots allocated disk).2.blocks k i = some b := by
  induction slots generalizing allocated disk with
  | nil => exact held
  | cons j rest ih =>
      by_cases wanted : allocated < required
      · cases slot : disk.blocks k j with
        | some block =>
            rw [allocateBlocksFrom_filled slot]
            exact ih allocated held
        | none =>
            cases block : (allocateBlock disk).1 with
            | none =>
                rw [allocateBlocksFrom_failed slot block]
                exact held
            | some new =>
                rw [allocateBlocksFrom_taken slot block wanted]
                apply ih (allocated + 1)
                have other : i ≠ j := by
                  rintro rfl
                  cases held.symm.trans slot
                rw [blocks_takeBlock, update_of_ne other]
                exact held
      · rw [allocateBlocksFrom_enough (Nat.le_of_not_lt wanted)]
        exact held

theorem allocateBlocksFrom_shift (required extra : Nat) (slots : List Nat) (allocated : Nat)
    (disk : Disk) :
    (allocateBlocksFrom k (required + extra) slots (allocated + extra) disk).2 =
      (allocateBlocksFrom k required slots allocated disk).2 := by
  induction slots generalizing allocated disk with
  | nil => rfl
  | cons j rest ih =>
      by_cases wanted : allocated < required
      · cases slot : disk.blocks k j with
        | some block =>
            rw [allocateBlocksFrom_filled slot, allocateBlocksFrom_filled slot]
            exact ih allocated disk
        | none =>
            cases block : (allocateBlock disk).1 with
            | none => rw [allocateBlocksFrom_failed slot block, allocateBlocksFrom_failed slot block]
            | some new =>
                rw [allocateBlocksFrom_taken slot block wanted,
                  allocateBlocksFrom_taken slot block (Nat.add_lt_add_right wanted extra),
                  Nat.add_right_comm]
                exact ih (allocated + 1) (takeBlock disk k j new)
      · have enough := Nat.le_of_not_lt wanted
        rw [allocateBlocksFrom_enough enough,
          allocateBlocksFrom_enough (Nat.add_le_add_right enough extra)]

theorem allocateBlocksFrom_add (required more : Nat) (slots : List Nat) (allocated : Nat)
    (within : allocated ≤ required) (disk : Disk) :
    (allocateBlocksFrom k (required + more) slots allocated disk).2 =
      (allocateBlocksFrom k more slots 0
        (allocateBlocksFrom k required slots allocated disk).2).2 := by
  induction slots generalizing allocated disk with
  | nil => rfl
  | cons j rest ih =>
      by_cases wanted : allocated < required
      · cases slot : disk.blocks k j with
        | some block =>
            rw [allocateBlocksFrom_filled slot, allocateBlocksFrom_filled slot,
              allocateBlocksFrom_filled (allocateBlocksFrom_keeps required rest allocated slot)]
            exact ih allocated within disk
        | none =>
            cases block : (allocateBlock disk).1 with
            | none =>
                rw [allocateBlocksFrom_failed slot block, allocateBlocksFrom_failed slot block,
                  allocateBlocksFrom_failed slot block]
            | some new =>
                have filled : (takeBlock disk k j new).blocks k j = some new := by
                  rw [blocks_takeBlock, update_self]
                rw [allocateBlocksFrom_taken slot block wanted,
                  allocateBlocksFrom_taken slot block (Nat.lt_add_right more wanted),
                  allocateBlocksFrom_filled
                    (allocateBlocksFrom_keeps required rest (allocated + 1) filled)]
                exact ih (allocated + 1) wanted (takeBlock disk k j new)
      · obtain rfl : allocated = required := Nat.le_antisymm within (Nat.le_of_not_lt wanted)
        have shifted := allocateBlocksFrom_shift (k := k) more allocated (j :: rest) 0 disk
        rw [Nat.zero_add, Nat.add_comm more allocated] at shifted
        rw [allocateBlocksFrom_enough (Nat.le_refl allocated)]
        exact shifted

theorem allocateBlocks_add (disk : Disk) (k required more : Nat) :
    (allocateBlocks disk k (required + more)).2 =
      (allocateBlocks (allocateBlocks disk k required).2 k more).2 :=
  allocateBlocksFrom_add required more _ 0 (Nat.zero_le required) disk

theorem allocateBlocksFrom_full (required : Nat) (slots : List Nat) (allocated : Nat)
    (full : ∀ j ∈ slots, disk.blocks k j ≠ none) :
    allocateBlocksFrom k required slots allocated disk = (allocated, disk) := by
  induction slots with
  | nil => rfl
  | cons j rest ih =>
      obtain ⟨held, later⟩ := List.forall_mem_cons.mp full
      obtain ⟨block, slot⟩ := Option.ne_none_iff_exists'.mp held
      rw [allocateBlocksFrom_filled slot]
      exact ih later

def Disk.store (disk : Disk) (k size : Nat) (storage : Storage) : Disk :=
  { disk with
    storage := storage
    inodeTable := update disk.inodeTable k { disk.inodeTable k with size := size } }

theorem store_store (disk : Disk) (k size size' : Nat) (storage storage' : Storage) :
    (disk.store k size storage).store k size' storage' = disk.store k size' storage' := by
  simp only [Disk.store, update_idem, update_self]

theorem blocks_store (disk : Disk) (k size : Nat) (storage : Storage) :
    (disk.store k size storage).blocks k = disk.blocks k := by
  simp only [Disk.store, Disk.blocks, update_self]

theorem takeBlock_store (disk : Disk) (k j b size : Nat) (storage : Storage) :
    takeBlock (disk.store k size storage) k j b = (takeBlock disk k j b).store k size storage := by
  simp only [takeBlock, Disk.store, Disk.setSlot, Disk.setInode, Disk.setFreeBlocks,
    Disk.setBitmap, update_idem, update_self]

theorem allocateBlocksFrom_store (required : Nat) (slots : List Nat) (allocated : Nat) (disk : Disk)
    (size : Nat) (storage : Storage) :
    (allocateBlocksFrom k required slots allocated (disk.store k size storage)).2 =
      (allocateBlocksFrom k required slots allocated disk).2.store k size storage := by
  induction slots generalizing allocated disk with
  | nil => rfl
  | cons j rest ih =>
      have same : (disk.store k size storage).blocks k j = disk.blocks k j := by rw [blocks_store]
      by_cases wanted : allocated < required
      · cases slot : disk.blocks k j with
        | some block =>
            rw [allocateBlocksFrom_filled slot, allocateBlocksFrom_filled (same.trans slot)]
            exact ih allocated disk
        | none =>
            have found : (allocateBlock (disk.store k size storage)).1 = (allocateBlock disk).1 := by
              rw [allocateBlock_fst, allocateBlock_fst]
              rfl
            cases block : (allocateBlock disk).1 with
            | none =>
                rw [allocateBlocksFrom_failed slot block,
                  allocateBlocksFrom_failed (same.trans slot) (found.trans block)]
            | some new =>
                rw [allocateBlocksFrom_taken slot block wanted,
                  allocateBlocksFrom_taken (same.trans slot) (found.trans block) wanted,
                  takeBlock_store]
                exact ih (allocated + 1) (takeBlock disk k j new)
      · have enough := Nat.le_of_not_lt wanted
        rw [allocateBlocksFrom_enough enough, allocateBlocksFrom_enough enough]

theorem allocateBlocks_store (disk : Disk) (k required size : Nat) (storage : Storage) :
    (allocateBlocks (disk.store k size storage) k required).2 =
      (allocateBlocks disk k required).2.store k size storage :=
  allocateBlocksFrom_store required _ 0 disk size storage

/-- Asking for more than the empty slots makes no difference. -/
theorem allocateBlocks_beyond {c : Nat} (file : k < maxFiles)
    (occupied : SlotPrefix (disk.blocks k) c)
    (consistent : BlocksConsistent disk.blocks disk.blockBitmap disk.sb.freeBlocks)
    (beyond : maxBlocksPerFile - c ≤ required) :
    (allocateBlocks disk k required).2 = (allocateBlocks disk k (maxBlocksPerFile - c)).2 := by
  obtain ⟨more, rfl⟩ := Nat.exists_eq_add_of_le beyond
  obtain ⟨after, taken, grown⟩ := allocateBlocks_grown (maxBlocksPerFile - c) file occupied consistent
  obtain ⟨blocks, bitmap, freeBlocks, rfl, filled, _⟩ := grown
  rw [allocateBlocks_add, taken]
  dsimp only
  have slots := occupied.1
  have total : c + min (maxBlocksPerFile - c) (maxBlocksPerFile - c) = maxBlocksPerFile := by omega
  rw [total] at filled
  have full : ∀ j ∈ List.range maxBlocksPerFile,
      (disk.withBlocks k blocks bitmap freeBlocks).blocks k j ≠ none := by
    intro j member
    rw [blocks_withBlocks, update_self]
    exact (filled.2 j (List.mem_range.mp member)).mpr (List.mem_range.mp member)
  rw [allocateBlocks, allocateBlocksFrom_full more _ 0 full]

end Allocation

/-! ## Copying in pieces -/

section Copies

variable {before middle after : Storage} {blocks blocks' : Nat → Option Nat}
  {buffer first second : Bytes} {start begun upto c : Nat}

theorem Copied.extend (copied : Copied before after blocks buffer start begun upto)
    (occupied : SlotPrefix blocks c) (fits : upto ≤ c * blockSize)
    (kept : ∀ j, j < c → blocks' j = blocks j) (distinct : SlotsDistinct blocks') :
    Copied before after blocks' buffer start begun upto where
  inside := by
    intro p lower upper
    have slot : p / blockSize < c := by
      unfold blockSize at *
      omega
    rw [fileByte, kept _ slot]
    exact copied.inside p lower upper
  outside := by
    intro p reach away
    by_cases slot : p / blockSize < c
    · rw [fileByte, fileByte, kept _ slot]
      exact copied.outside p reach away
    · refine fileByte_congr before after blocks' p fun b held => copied.elsewhere b ?_
      intro j inside holds
      have old : j < c := (occupied.2 j inside).mp (by rw [holds]; exact Option.some_ne_none b)
      have same := distinct j _ b inside reach ((kept j old).trans holds) held
      exact slot (same ▸ old)
  elsewhere := by
    intro b unowned
    refine copied.elsewhere b fun j inside holds => unowned j inside ?_
    have old : j < c := (occupied.2 j inside).mp (by rw [holds]; exact Option.some_ne_none b)
    exact (kept j old).trans holds

theorem Copied.join {taken more : Nat} (one : Copied before middle blocks first start start (start + taken))
    (two : Copied middle after blocks second (start + taken) (start + taken) (start + taken + more))
    (limit : start + taken + more ≤ maxSize) (left : ∀ i, i < taken → buffer i = first i)
    (right : ∀ i, i < more → buffer (taken + i) = second i) :
    Copied before after blocks buffer start start (start + taken + more) where
  inside := by
    intro p lower upper
    have reach : p / blockSize < maxBlocksPerFile := by
      unfold maxSize blockSize maxBlocksPerFile at *
      omega
    by_cases early : p < start + taken
    · rw [two.outside p reach (Or.inl early), one.inside p lower early, left _ (by omega)]
    · have place : taken + (p - (start + taken)) = p - start := by omega
      rw [two.inside p (by omega) upper, ← right _ (by omega), place]
  outside := by
    intro p reach away
    rw [two.outside p reach (by omega), one.outside p reach (by omega)]
  elsewhere := fun b unowned => (two.elsewhere b unowned).trans (one.elsewhere b unowned)

def SameBeyond (before after : Storage) : Prop :=
  ∀ b offset, blockSize ≤ offset → after b offset = before b offset

theorem SameBeyond.trans (one : SameBeyond before middle) (two : SameBeyond middle after) :
    SameBeyond before after :=
  fun b offset behind => (two b offset behind).trans (one b offset behind)

theorem appendLoop_beyond (inode : Inode) (buffer : Bytes) (currentSize appendSize fuel written : Nat)
    (storage : Storage) :
    SameBeyond storage (appendLoop inode buffer currentSize appendSize fuel written storage).2 := by
  induction fuel generalizing written storage with
  | zero => exact fun _ _ _ => rfl
  | succ fuel ih =>
      rw [appendLoop]
      split
      · dsimp only
        split
        · exact fun _ _ _ => rfl
        · rename_i block _
          refine SameBeyond.trans ?_ (ih _ _)
          intro b offset behind
          by_cases same : b = block
          · have inBlock : (currentSize + written) % blockSize < blockSize :=
              Nat.mod_lt _ (by decide)
            rw [same, update_self, memcpy_apply, if_neg (by omega)]
          · rw [update_of_ne same]
      · exact fun _ _ _ => rfl

theorem Copied.unique {after' : Storage} (one : Copied before after blocks first start start upto)
    (two : Copied before after' blocks second start start upto)
    (same : ∀ i, start + i < upto → first i = second i) (beyond : SameBeyond before after)
    (beyond' : SameBeyond before after') : after = after' := by
  funext b offset
  by_cases inside : offset < blockSize
  · by_cases owned : ∃ j, j < maxBlocksPerFile ∧ blocks j = some b
    · obtain ⟨j, slot, held⟩ := owned
      have place : (j * blockSize + offset) / blockSize = j := by
        rw [Nat.mul_comm, Nat.mul_add_div (by decide), Nat.div_eq_of_lt inside, Nat.add_zero]
      have rest : (j * blockSize + offset) % blockSize = offset := by
        rw [Nat.mul_comm, Nat.mul_add_mod, Nat.mod_eq_of_lt inside]
      have here : ∀ storage, fileByte storage blocks (j * blockSize + offset) = storage b offset := by
        intro storage
        rw [fileByte, place, held]
        dsimp only
        rw [rest]
      rw [← here after, ← here after']
      by_cases written : start ≤ j * blockSize + offset ∧ j * blockSize + offset < upto
      · rw [one.inside _ written.1 written.2, two.inside _ written.1 written.2]
        exact same _ (by omega)
      · have away : j * blockSize + offset < start ∨ upto ≤ j * blockSize + offset := by omega
        rw [one.outside _ (by omega) away, two.outside _ (by omega) away]
    · have unowned : ∀ j, j < maxBlocksPerFile → blocks j ≠ some b :=
        fun j slot held => owned ⟨j, slot, held⟩
      rw [one.elsewhere b unowned, two.elsewhere b unowned]
  · rw [beyond b offset (by omega), beyond' b offset (by omega)]

end Copies

/-! ## Positions -/

def accountedBlocks (size : Nat) : Nat := max ((size + blockSize - 1) / blockSize) 1

/-- Where an append to a file with `c` blocks has to stop. -/
def appendLimit (size c : Nat) : Nat := (accountedBlocks size + (maxBlocksPerFile - c)) * blockSize

theorem le_accountedBlocks (size : Nat) : size ≤ accountedBlocks size * blockSize := by
  unfold accountedBlocks blockSize
  omega

theorem accountedBlocks_le {size c : Nat} (one : 1 ≤ c) (fits : size ≤ c * blockSize) :
    accountedBlocks size ≤ c := by
  unfold accountedBlocks blockSize at *
  omega

theorem accountedBlocks_mono {size size' : Nat} (less : size ≤ size') :
    accountedBlocks size ≤ accountedBlocks size' := by
  unfold accountedBlocks blockSize
  omega

theorem accountedBlocks_mul {c : Nat} (one : 1 ≤ c) : accountedBlocks (c * blockSize) = c := by
  unfold accountedBlocks blockSize
  omega

theorem spaceLeftInLast_eq (size : Nat) :
    spaceLeftInLast size = accountedBlocks size * blockSize - size := by
  rcases spaceLeftInLast_cases size with ⟨last, positive, space⟩ | ⟨last, space⟩
  · rw [space]
    unfold accountedBlocks blockSize at *
    omega
  · rw [space]
    unfold accountedBlocks blockSize at *
    omega

theorem blocksForAppend_eq {disk : Disk} {k : Nat} (n : Nat) (limit : disk.size k ≤ maxSize) :
    blocksForAppend disk k n =
      accountedBlocks (min (disk.size k + n) maxSize) - accountedBlocks (disk.size k) := by
  rw [blocksForAppend, spaceLeftInLast_eq]
  have above := le_accountedBlocks (disk.size k)
  generalize disk.size k = size at *
  unfold accountedBlocks maxSize maxBlocksPerFile blockSize at *
  omega

theorem append_positions {size c : Nat} (n : Nat) (one : 1 ≤ c) (slots : c ≤ maxBlocksPerFile)
    (fits : size ≤ c * blockSize) :
    min (min n (maxSize - size)) (spaceLeftInLast size + (maxBlocksPerFile - c) * blockSize) =
      min n (appendLimit size c - size) := by
  have above := le_accountedBlocks size
  have below := accountedBlocks_le one fits
  rw [spaceLeftInLast_eq, appendLimit, Nat.add_mul]
  unfold maxSize maxBlocksPerFile blockSize at *
  omega

/-- What an append accepts is at the end of a block, or is all. -/
theorem accountedBlocks_append {size c : Nat} (n : Nat) (one : 1 ≤ c) (slots : c ≤ maxBlocksPerFile)
    (fits : size ≤ c * blockSize) :
    accountedBlocks (size + min n (appendLimit size c - size)) = accountedBlocks size +
      min (accountedBlocks (min (size + n) maxSize) - accountedBlocks size)
        (maxBlocksPerFile - c) := by
  have below := accountedBlocks_le one fits
  have above := le_accountedBlocks size
  have first : 1 ≤ accountedBlocks size := Nat.le_max_right _ _
  have upper : appendLimit size c ≤ maxSize := Nat.mul_le_mul_right blockSize (by omega)
  have begun : size ≤ appendLimit size c :=
    above.trans (Nat.mul_le_mul_right blockSize (Nat.le_add_right _ _))
  have ended : accountedBlocks (appendLimit size c) = accountedBlocks size + (maxBlocksPerFile - c) :=
    accountedBlocks_mul (first.trans (Nat.le_add_right _ _))
  rcases Nat.le_total (size + n) (appendLimit size c) with all | truncated
  · have within := accountedBlocks_mono all
    have grown := accountedBlocks_mono (Nat.le_add_right size n)
    rw [Nat.min_eq_left (Nat.le_sub_of_add_le' all), Nat.min_eq_left (all.trans upper)]
    omega
  · have reached := accountedBlocks_mono (Nat.le_min.mpr ⟨truncated, upper⟩)
    rw [Nat.min_eq_right (Nat.sub_le_iff_le_add'.mpr truncated), Nat.add_sub_cancel' begun]
    omega

theorem appendLimit_append {size c : Nat} (n : Nat) (one : 1 ≤ c) (slots : c ≤ maxBlocksPerFile)
    (fits : size ≤ c * blockSize) :
    appendLimit (size + min n (appendLimit size c - size))
      (c + min (accountedBlocks (min (size + n) maxSize) - accountedBlocks size)
        (maxBlocksPerFile - c)) = appendLimit size c := by
  rw [appendLimit, accountedBlocks_append n one slots fits, appendLimit]
  congr 1
  omega

theorem asked_append {size c : Nat} (n m : Nat) (one : 1 ≤ c) (slots : c ≤ maxBlocksPerFile)
    (fits : size ≤ c * blockSize) {middle asked more all : Nat}
    (stop : middle = size + min n (appendLimit size c - size))
    (asked_eq : asked = accountedBlocks (min (size + n) maxSize) - accountedBlocks size)
    (more_eq : more = accountedBlocks (min (middle + m) maxSize) - accountedBlocks middle)
    (all_eq : all = accountedBlocks (min (size + (n + m)) maxSize) - accountedBlocks size) :
    asked + more = all ∨ (maxBlocksPerFile - c ≤ asked + more ∧ maxBlocksPerFile - c ≤ all) := by
  have below := accountedBlocks_le one fits
  have less : min (size + n) maxSize ≤ min (size + (n + m)) maxSize := by omega
  have longer := accountedBlocks_mono less
  by_cases truncated : maxBlocksPerFile - c < asked
  · right
    omega
  · left
    have limit : size ≤ maxSize := fits.trans (Nat.mul_le_mul_right blockSize slots)
    have begun : size ≤ min (size + n) maxSize := by omega
    have grown := accountedBlocks_mono begun
    have fitting : accountedBlocks (min (size + n) maxSize) ≤
        accountedBlocks size + (maxBlocksPerFile - c) := by omega
    have reach : min (size + n) maxSize ≤ appendLimit size c :=
      (le_accountedBlocks _).trans (Nat.mul_le_mul_right blockSize fitting)
    have upper : appendLimit size c ≤ maxSize :=
      Nat.mul_le_mul_right blockSize (by omega)
    have here : middle = min (size + n) maxSize := by omega
    have same : min (middle + m) maxSize = min (size + (n + m)) maxSize := by omega
    rw [same, here] at more_eq
    omega

/-! ## One append -/

/-- What `append_to_file` does to file `k`, which has `c` blocks. -/
structure Appended (disk : Disk) (k c : Nat) (buffer : Bytes) (n : Nat)
    (result : Option Nat × Disk) (storage : Storage) : Prop where
  accepted : result.1.getD 0 = min n (appendLimit (disk.size k) c - disk.size k)
  after : result.2 = (allocateBlocks disk k (blocksForAppend disk k n)).2.store k
    (disk.size k + min n (appendLimit (disk.size k) c - disk.size k)) storage
  copied : Copied disk.storage storage
    ((allocateBlocks disk k (blocksForAppend disk k n)).2.blocks k) buffer (disk.size k)
    (disk.size k) (disk.size k + min n (appendLimit (disk.size k) c - disk.size k))
  beyond : SameBeyond disk.storage storage

theorem reserveForAppend_snd (disk : Disk) (k n : Nat) :
    (reserveForAppend disk k n).2 = (allocateBlocks disk k (blocksForAppend disk k n)).2 := by
  have cut : ∀ appendSize space : Nat,
      (if appendSize > space then appendSize - space else 0) = appendSize - space := by
    intro appendSize space
    split <;> omega
  have room : (if disk.size k % blockSize = 0 ∧ disk.size k > 0 then 0
      else blockSize - disk.size k % blockSize) = spaceLeftInLast (disk.size k) := rfl
  have size : (disk.inodeTable k).size = disk.size k := rfl
  simp only [reserveForAppend, size, room, cut]
  rw [blocksForAppend]
  generalize (min n (maxSize - disk.size k) - spaceLeftInLast (disk.size k) + blockSize - 1) /
    blockSize = needed
  by_cases positive : needed > 0
  · rw [if_pos positive]
    split <;> rfl
  · have zero : needed = 0 := by omega
    rw [if_neg positive, zero, allocateBlocks, allocateBlocksFrom_enough (Nat.le_refl 0)]

theorem appendToFile_appended {disk : Disk} {filename : FileName} {i k c : Nat}
    (invariant : Invariant disk) (found : Found disk filename i k)
    (permitted : checkPermissions (disk.inodeTable k).permissions 1 = true)
    (one : 1 ≤ c) (occupied : SlotPrefix (disk.blocks k) c) (fits : disk.size k ≤ c * blockSize)
    (buffer : Bytes) (n : Nat) :
    ∃ storage, Appended disk k c buffer n (appendToFile disk filename buffer n) storage := by
  have above := le_accountedBlocks (disk.size k)
  have below := accountedBlocks_le one fits
  have slots := occupied.1
  have limit : disk.size k ≤ maxSize := fits.trans (Nat.mul_le_mul_right blockSize slots)
  by_cases full : maxSize ≤ disk.size k
  · have nothing : min n (appendLimit (disk.size k) c - disk.size k) = 0 := by
      unfold appendLimit maxSize maxBlocksPerFile blockSize at *
      omega
    have asked : blocksForAppend disk k n = 0 := by
      rw [blocksForAppend_eq n limit]
      have same : min (disk.size k + n) maxSize = disk.size k := by omega
      rw [same, Nat.sub_self]
    have unchanged : disk.store k (disk.size k) disk.storage = disk := by
      simp [Disk.store, Disk.size]
    refine ⟨disk.storage, ?_, ?_, ?_, fun _ _ _ => rfl⟩
    · rw [appendToFile_full found full, nothing]
      rfl
    · rw [appendToFile_full found full, nothing, asked, allocateBlocks,
        allocateBlocksFrom_enough (Nat.le_refl 0), Nat.add_zero, unchanged]
    · rw [nothing]
      exact Copied.refl ..
  · obtain ⟨after, added, reserved, count, grown⟩ :=
      reserveForAppend_grown n found.inode occupied invariant.blocks
    have added_eq : added = min (blocksForAppend disk k n) (maxBlocksPerFile - c) := count
    rw [append_positions n one slots fits] at reserved
    have taken := reserveForAppend_snd disk k n
    rw [reserved] at taken
    obtain ⟨blocks, bitmap, freeBlocks, rfl, occupied', _, consistent⟩ := grown
    have slots' : (disk.withBlocks k blocks bitmap freeBlocks).inodeTable k =
        { disk.inodeTable k with blocks := blocks } := inodeTable_withBlocks ..
    have stop := accountedBlocks_append n one slots fits
    generalize accepted : min n (appendLimit (disk.size k) c - disk.size k) = written at *
    have room : disk.size k + written ≤ (c + added) * blockSize := by
      have within := le_accountedBlocks (disk.size k + written)
      rw [blocksForAppend_eq n limit] at added_eq
      rw [stop, ← added_eq] at within
      exact within.trans (Nat.mul_le_mul_right blockSize (Nat.add_le_add_right below added))
    obtain ⟨storage, loop, copied⟩ := appendLoop_copied { disk.inodeTable k with blocks := blocks }
      buffer (disk.size k) written (c + added) occupied' (consistent.slotsDistinct found.inode) room
      written 0 disk.storage (Nat.zero_le _) (by omega)
    have beyond := appendLoop_beyond { disk.inodeTable k with blocks := blocks } buffer (disk.size k)
      written written 0 disk.storage
    rw [loop] at beyond
    have result : appendToFile disk filename buffer n = (some written,
        (disk.withBlocks k blocks bitmap freeBlocks).store k (disk.size k + written) storage) := by
      have loop' : appendLoop { disk.inodeTable k with blocks := blocks } buffer
          (disk.inodeTable k).size written written 0
          (disk.withBlocks k blocks bitmap freeBlocks).storage = (written, storage) := loop
      have open_ : ¬ (disk.inodeTable k).size ≥ maxSize := full
      unfold appendToFile
      simp only [found.scan, found.number, Nat.add_sub_cancel, permitted, if_true, if_neg open_,
        reserved, slots', loop']
      simp [Disk.store, Disk.setInode, Disk.withBlocks, Disk.size]
    refine ⟨storage, ?_, ?_, ?_, beyond⟩
    · rw [result]
      exact accepted.symm
    · rw [result, ← taken, accepted]
    · rw [← taken, accepted, blocks_withBlocks, update_self]
      exact copied

/-! ## Two appends -/

/-- The first `n` bytes of one buffer and then the bytes of another. -/
def joined (first : Bytes) (n : Nat) (second : Bytes) : Bytes :=
  fun i => if i < n then first i else second (i - n)

structure Continues (disk : Disk) (filename : FileName) (i k c n : Nat) (middle : Disk)
    (storage : Storage) (c' : Nat) : Prop where
  invariant : Invariant middle
  found : Found middle filename i k
  permitted : checkPermissions (middle.inodeTable k).permissions 1 = true
  occupied : SlotPrefix (middle.blocks k) c'
  count : c' = c + min (blocksForAppend disk k n) (maxBlocksPerFile - c)
  size : middle.size k = disk.size k + min n (appendLimit (disk.size k) c - disk.size k)
  storage : middle.storage = storage

theorem Found.store {disk : Disk} {filename : FileName} {i k c : Nat} (invariant : Invariant disk)
    (found : Found disk filename i k)
    (permitted : checkPermissions (disk.inodeTable k).permissions 1 = true)
    (occupied : SlotPrefix (disk.blocks k) c) (required size : Nat) (storage : Storage) :
    let middle := (allocateBlocks disk k required).2.store k size storage
    Found middle filename i k ∧ checkPermissions (middle.inodeTable k).permissions 1 = true ∧
      SlotPrefix (middle.blocks k) (c + min required (maxBlocksPerFile - c)) ∧
      middle.size k = size ∧ middle.storage = storage := by
  obtain ⟨after, taken, grown⟩ := allocateBlocks_grown required found.inode occupied invariant.blocks
  obtain ⟨blocks, bitmap, freeBlocks, rfl, filled, _⟩ := grown
  rw [taken]
  have inode : ((disk.withBlocks k blocks bitmap freeBlocks).store k size storage).inodeTable k =
      { disk.inodeTable k with blocks := blocks, size := size } := by
    simp [Disk.store]
  refine ⟨⟨found.scan, found.entry, found.number, found.inode, ?_⟩, ?_, ?_, ?_, rfl⟩
  · rw [Disk.number, inode]
    exact found.live
  · rw [inode]
    exact permitted
  · rw [Disk.blocks, inode]
    exact filled
  · rw [Disk.size, inode]

theorem Appended.continues {disk : Disk} {filename : FileName} {i k c n : Nat} {buffer : Bytes}
    {storage : Storage} (invariant : Invariant disk) (found : Found disk filename i k)
    (permitted : checkPermissions (disk.inodeTable k).permissions 1 = true)
    (occupied : SlotPrefix (disk.blocks k) c)
    (appended : Appended disk k c buffer n (appendToFile disk filename buffer n) storage) :
    Continues disk filename i k c n (appendToFile disk filename buffer n).2 storage
      (c + min (blocksForAppend disk k n) (maxBlocksPerFile - c)) := by
  have kept := perform_invariant invariant (.appendToFile filename buffer n)
  rw [perform, appended.after] at kept
  rw [appended.after]
  obtain ⟨found', permitted', occupied', size, contents⟩ := found.store invariant permitted occupied
    (blocksForAppend disk k n)
    (disk.size k + min n (appendLimit (disk.size k) c - disk.size k)) storage
  exact ⟨kept, found', permitted', occupied', rfl, size, contents⟩

theorem allocateBlocks_distinct {disk : Disk} {k c : Nat} (required : Nat) (file : k < maxFiles)
    (occupied : SlotPrefix (disk.blocks k) c)
    (consistent : BlocksConsistent disk.blocks disk.blockBitmap disk.sb.freeBlocks) :
    SlotsDistinct ((allocateBlocks disk k required).2.blocks k) ∧
      ∀ j, j < c → (allocateBlocks disk k required).2.blocks k j = disk.blocks k j := by
  obtain ⟨after, taken, grown⟩ := allocateBlocks_grown required file occupied consistent
  obtain ⟨blocks, bitmap, freeBlocks, rfl, _, kept, consistent'⟩ := grown
  rw [taken]
  dsimp only
  rw [blocks_withBlocks, update_self]
  exact ⟨consistent'.slotsDistinct file, kept⟩

namespace Continues

variable {disk middle : Disk} {filename : FileName} {i k c c' n : Nat} {storage : Storage}

theorem fits (continues : Continues disk filename i k c n middle storage c') (one : 1 ≤ c)
    (slots : c ≤ maxBlocksPerFile) (fits : disk.size k ≤ c * blockSize) :
    middle.size k ≤ c' * blockSize := by
  have limit : disk.size k ≤ maxSize := fits.trans (Nat.mul_le_mul_right blockSize slots)
  refine (le_accountedBlocks _).trans (Nat.mul_le_mul_right blockSize ?_)
  rw [continues.size, accountedBlocks_append n one slots fits, continues.count,
    blocksForAppend_eq n limit]
  exact Nat.add_le_add_right (accountedBlocks_le one fits) _

theorem limit_eq (continues : Continues disk filename i k c n middle storage c') (one : 1 ≤ c)
    (slots : c ≤ maxBlocksPerFile) (fits : disk.size k ≤ c * blockSize) :
    appendLimit (middle.size k) c' = appendLimit (disk.size k) c := by
  have limit : disk.size k ≤ maxSize := fits.trans (Nat.mul_le_mul_right blockSize slots)
  rw [continues.size, continues.count, blocksForAppend_eq n limit]
  exact appendLimit_append n one slots fits

theorem allocates (continues : Continues disk filename i k c n middle storage c') (one : 1 ≤ c)
    (occupied : SlotPrefix (disk.blocks k) c) (fits : disk.size k ≤ c * blockSize)
    (consistent : BlocksConsistent disk.blocks disk.blockBitmap disk.sb.freeBlocks) (m : Nat) :
    (allocateBlocks disk k (blocksForAppend disk k n + blocksForAppend middle k m)).2 =
      (allocateBlocks disk k (blocksForAppend disk k (n + m))).2 := by
  have slots := occupied.1
  have limit : disk.size k ≤ maxSize := fits.trans (Nat.mul_le_mul_right blockSize slots)
  have limit' : middle.size k ≤ maxSize :=
    (continues.fits one slots fits).trans (Nat.mul_le_mul_right blockSize continues.occupied.1)
  have asked := asked_append n m one slots fits continues.size (blocksForAppend_eq n limit)
    (blocksForAppend_eq m limit') (blocksForAppend_eq (n + m) limit)
  rcases asked with same | ⟨beyond, beyond'⟩
  · rw [same]
  · rw [allocateBlocks_beyond continues.found.inode occupied consistent beyond,
      allocateBlocks_beyond continues.found.inode occupied consistent beyond']

end Continues

theorem append_in_pieces {disk : Disk} {filename : FileName} {i k : Nat}
    (invariant : Invariant disk) (found : Found disk filename i k)
    (permitted : checkPermissions (disk.inodeTable k).permissions 1 = true)
    (first second : Bytes) (n m : Nat) :
    (appendToFile (appendToFile disk filename first n).2 filename second m).2 =
        (appendToFile disk filename (joined first n second) (n + m)).2 ∧
      (appendToFile disk filename first n).1.getD 0 +
          (appendToFile (appendToFile disk filename first n).2 filename second m).1.getD 0 =
        (appendToFile disk filename (joined first n second) (n + m)).1.getD 0 := by
  obtain ⟨c, one, occupied, fits⟩ := invariant.occupied found
  have slots := occupied.1
  have below := accountedBlocks_le one fits
  have limit : disk.size k ≤ maxSize := fits.trans (Nat.mul_le_mul_right blockSize slots)
  obtain ⟨storage₁, appended₁⟩ :=
    appendToFile_appended invariant found permitted one occupied fits first n
  obtain ⟨storage, appended⟩ := appendToFile_appended invariant found permitted one occupied fits
    (joined first n second) (n + m)
  have continues := appended₁.continues invariant found permitted occupied
  obtain ⟨middle, middle_eq⟩ : ∃ middle, (appendToFile disk filename first n).2 = middle := ⟨_, rfl⟩
  obtain ⟨c', c'_eq⟩ : ∃ c', c + min (blocksForAppend disk k n) (maxBlocksPerFile - c) = c' :=
    ⟨_, rfl⟩
  rw [middle_eq, c'_eq] at continues
  have after₁ := appended₁.after
  rw [middle_eq] at after₁ ⊢
  -- The positions, and the blocks asked for.
  have fits' := continues.fits one slots fits
  have stays := continues.limit_eq one slots fits
  obtain ⟨storage₂, appended₂⟩ := appendToFile_appended continues.invariant continues.found
    continues.permitted (by omega) continues.occupied fits' second m
  have allocated : (allocateBlocks middle k (blocksForAppend middle k m)).2 =
      (allocateBlocks disk k (blocksForAppend disk k (n + m))).2.store k (middle.size k) storage₁ := by
    rw [← continues.allocates one occupied fits invariant.blocks m, allocateBlocks_add,
      ← allocateBlocks_store, continues.size, ← after₁]
  -- The bytes.
  have accepted₁ := appended₁.accepted
  have accepted₂ := appended₂.accepted
  have after₂ := appended₂.after
  have copied₁ := appended₁.copied
  have copied₂ := appended₂.copied
  have beyond₂ := appended₂.beyond
  have blocks₁ : (allocateBlocks disk k (blocksForAppend disk k n)).2.blocks k = middle.blocks k := by
    rw [after₁, blocks_store]
  obtain ⟨distinct, kept⟩ := allocateBlocks_distinct (blocksForAppend middle k m) found.inode
    continues.occupied continues.invariant.blocks
  rw [allocated, blocks_store] at distinct kept copied₂
  rw [stays] at accepted₂ after₂ copied₂
  rw [allocated, store_store] at after₂
  rw [blocks₁, ← continues.size] at copied₁
  rw [continues.storage] at copied₂ beyond₂
  have size := continues.size
  have last : appendLimit (disk.size k) c ≤ maxSize :=
    Nat.mul_le_mul_right blockSize (by omega)
  have stop : middle.size k + min m (appendLimit (disk.size k) c - middle.size k) =
      disk.size k + min (n + m) (appendLimit (disk.size k) c - disk.size k) := by omega
  obtain ⟨taken, taken_eq⟩ : ∃ taken, min n (appendLimit (disk.size k) c - disk.size k) = taken :=
    ⟨_, rfl⟩
  rw [taken_eq] at size accepted₁
  rw [size] at copied₁ copied₂ stop accepted₂ after₂
  have contents : storage₂ = storage := by
    have pieces := copied₁.extend continues.occupied (size ▸ fits') kept distinct
    have left : ∀ i, i < taken → joined first n second i = first i := by
      intro i inside
      rw [joined, if_pos (by omega)]
    have right : ∀ i, i < min m (appendLimit (disk.size k) c - (disk.size k + taken)) →
        joined first n second (taken + i) = second i := by
      intro i inside
      have all : taken = n := by omega
      rw [joined, all, if_neg (by omega), Nat.add_sub_cancel_left]
    have joint := pieces.join copied₂ (by omega) left right
    rw [stop] at joint
    exact joint.unique appended.copied (fun _ _ => rfl) (appended₁.beyond.trans beyond₂)
      appended.beyond
  constructor
  · rw [after₂, appended.after, stop, contents]
  · rw [accepted₁, accepted₂, appended.accepted]
    omega

/-- Appending is independent of chunking. -/
theorem append_chunking (disk : Disk) (reachable : fileSystem.Reachable disk) (filename : FileName)
    (i : Nat) (found : lookup disk filename = some i)
    (permitted : checkPermissions
      (disk.inodeTable ((disk.rootDirectory i).inodeNumber - 1)).permissions 1 = true)
    (first second : Bytes) (n m : Nat) :
    (appendToFile (appendToFile disk filename first n).2 filename second m).2 =
        (appendToFile disk filename (joined first n second) (n + m)).2 ∧
      (appendToFile disk filename first n).1.getD 0 +
          (appendToFile (appendToFile disk filename first n).2 filename second m).1.getD 0 =
        (appendToFile disk filename (joined first n second) (n + m)).1.getD 0 := by
  have invariant := reachable_invariant reachable
  obtain ⟨k, here⟩ := invariant.found found
  rw [here.number, Nat.add_sub_cancel] at permitted
  exact append_in_pieces invariant here permitted first second n m

theorem append_chunking_after_two :
    (appendToFile (appendToFile (writtenDisk [16384, 1]) nameA (fun _ => 7) 4000).2 nameA
          (fun _ => 8) 5000).2 =
        (appendToFile (writtenDisk [16384, 1]) nameA (joined (fun _ => 7) 4000 fun _ => 8) 9000).2 ∧
      (appendToFile (writtenDisk [16384, 1]) nameA (fun _ => 7) 4000).1.getD 0 +
          (appendToFile (appendToFile (writtenDisk [16384, 1]) nameA (fun _ => 7) 4000).2 nameA
            (fun _ => 8) 5000).1.getD 0 =
        (appendToFile (writtenDisk [16384, 1]) nameA (joined (fun _ => 7) 4000 fun _ => 8)
          9000).1.getD 0 :=
  append_chunking (writtenDisk [16384, 1]) (writtenDisk_reachable _) nameA 0 (by decide +kernel)
    (by decide +kernel) (fun _ => 7) (fun _ => 8) 4000 5000

end ApnaOS.FileSystem
