import ApnaOS.Lib.FirstFit
import ApnaOS.Memory.Heap

/-!
# What one call does to the page table

`allocate_pages` takes the first run of free pages in scan order, which starts
at `last_page_index` and goes round the end of the array.  `kfree` clears a head
and the tail parts that follow it in the array.
-/

set_option autoImplicit false

namespace ApnaOS.Memory

open ApnaOS.Lib
open Function (update update_self update_of_ne)

theorem numPages_eq : numPages = 4096 := rfl

theorem Block.owns_start {block : Block} (positive : 0 < block.pages)
    (bound : block.start < numPages) : block.Owns block.start :=
  ⟨0, positive, Nat.mod_eq_of_lt bound⟩

theorem Block.Owns.lt {block : Block} {p : Nat} (owns : block.Owns p) : p < numPages := by
  obtain ⟨j, _, rfl⟩ := owns
  exact Nat.mod_lt _ (by decide)

theorem Block.Inside.owns_iff {block : Block} (inside : block.Inside) (p : Nat) :
    block.Owns p ↔ block.start ≤ p ∧ p < block.start + block.pages := by
  have fits : block.start + block.pages ≤ numPages := inside
  constructor
  · rintro ⟨j, lower, rfl⟩
    rw [Nat.mod_eq_of_lt (by omega)]
    omega
  · rintro ⟨lower, upper⟩
    refine ⟨p - block.start, by omega, ?_⟩
    rw [Nat.add_sub_of_le lower, Nat.mod_eq_of_lt (by omega)]

/-! ## The scan -/

/-- Whether the `i`-th page the scan looks at is free. -/
def freeAt (heap : Heap) (i : Nat) : Bool :=
  decide (heap.pageTable ((heap.lastPageIndex + i) % numPages) = 0)

theorem findPages_eq (heap : Heap) (wanted remaining : Nat) {i count : Nat}
    {foundStart : Option Nat} (counted : count ≤ i)
    (started : foundStart =
      if count = 0 then none else some ((heap.lastPageIndex + (i - count)) % numPages)) :
    findPages heap wanted remaining i count foundStart =
      (scanRun (freeAt heap) wanted remaining i count).map
        fun s => (heap.lastPageIndex + s) % numPages := by
  induction remaining generalizing i count foundStart with
  | zero => rfl
  | succ remaining ih =>
      have next : foundStart.getD ((heap.lastPageIndex + i) % numPages) =
          (heap.lastPageIndex + (i - count)) % numPages := by
        rw [started]
        split
        · rename_i none_yet
          simp [none_yet]
        · simp
      simp only [findPages, scanRun, freeAt, decide_eq_true_eq]
      split
      · split
        · rw [next]
          rfl
        · rw [ih (by omega) (by rw [next, if_neg (by omega), Nat.add_sub_add_right])]
      · rw [ih (Nat.zero_le _) (by simp)]

theorem findPages_zero (heap : Heap) : findPages heap 0 numPages 0 0 none = none := by
  rw [findPages_eq heap 0 numPages (Nat.le_refl 0) (by simp), scanRun_zero]
  rfl

theorem findPages_eq_some_iff (heap : Heap) {wanted : Nat} (positive : 0 < wanted)
    (foundStart : Nat) :
    findPages heap wanted numPages 0 0 none = some foundStart ↔
      ∃ s, FirstRun (freeAt heap) numPages wanted s ∧
        (heap.lastPageIndex + s) % numPages = foundStart := by
  rw [findPages_eq heap wanted numPages (Nat.le_refl 0) (by simp)]
  simp only [Option.map_eq_some_iff, scanRun_start_iff positive]

/-! ## The marks -/

theorem markTail_apply (foundStart : Nat) (js : List Nat) (pageTable : PageTable) (p : Nat) :
    markTail foundStart js pageTable p =
      if ∃ j ∈ js, (foundStart + j) % numPages = p then 2 else pageTable p := by
  induction js generalizing pageTable with
  | nil => simp [markTail]
  | cons j rest ih =>
      rw [markTail, ih]
      by_cases later : ∃ j' ∈ rest, (foundStart + j') % numPages = p
      · obtain ⟨j', member, here⟩ := later
        rw [if_pos ⟨j', member, here⟩, if_pos ⟨j', List.mem_cons_of_mem j member, here⟩]
      · rw [if_neg later]
        by_cases now : (foundStart + j) % numPages = p
        · rw [if_pos ⟨j, List.mem_cons_self, now⟩, now, update_self]
        · rw [update_of_ne (Ne.symm now), if_neg]
          rintro ⟨j', member, here⟩
          rcases List.mem_cons.mp member with rfl | member'
          · exact now here
          · exact later ⟨j', member', here⟩

/-- A successful `allocate_pages`: the pages were free, the first is now a head
and the others are tail parts. -/
structure Allocated (before : Heap) (block : Block) (after : Heap) : Prop where
  positive : 0 < block.pages
  pages_le : block.pages ≤ numPages
  start_lt : block.start < numPages
  wasFree : ∀ p, block.Owns p → before.pageTable p = 0
  head : after.pageTable block.start = 1
  tail : ∀ p, block.Owns p → p ≠ block.start → after.pageTable p = 2
  others : ∀ p, ¬ block.Owns p → after.pageTable p = before.pageTable p
  next : after.lastPageIndex = (block.start + block.pages) % numPages

theorem allocatePages_none {heap : Heap} {wanted : Nat}
    (full : findPages heap wanted numPages 0 0 none = none) :
    allocatePages heap wanted = (none, heap) := by
  rw [allocatePages, full]

theorem allocatePages_some {heap : Heap} {wanted foundStart : Nat}
    (found : findPages heap wanted numPages 0 0 none = some foundStart) :
    ∃ after, allocatePages heap wanted = (some (foundStart * pageSize), after) ∧
      Allocated heap ⟨foundStart, wanted⟩ after := by
  have positive : 0 < wanted := by
    rcases Nat.eq_zero_or_pos wanted with zero | positive
    · rw [zero, findPages_zero] at found
      cases found
    · exact positive
  obtain ⟨s, run, start⟩ := (findPages_eq_some_iff heap positive foundStart).mp found
  have fits := run.fits
  have bound : foundStart < numPages := by
    rw [← start]
    exact Nat.mod_lt _ (by decide)
  refine ⟨_, by rw [allocatePages, found], ?_⟩
  have marks : ∀ p, (∃ j ∈ List.range' 1 (wanted - 1), (foundStart + j) % numPages = p) ↔
      Block.Owns ⟨foundStart, wanted⟩ p ∧ p ≠ foundStart := by
    intro p
    constructor
    · rintro ⟨j, member, here⟩
      have range := List.mem_range'_1.mp member
      have inside : j < wanted := by omega
      refine ⟨⟨j, inside, here⟩, ?_⟩
      rw [numPages_eq] at *
      omega
    · rintro ⟨⟨j, inside, here⟩, other⟩
      refine ⟨j, List.mem_range'_1.mpr ?_, here⟩
      have notHead : j ≠ 0 := by
        rintro rfl
        exact other (here.symm.trans (Nat.mod_eq_of_lt bound))
      simp only at inside
      omega
  refine ⟨positive, by simp only; omega, bound, ?_, ?_, ?_, ?_, rfl⟩
  · rintro p ⟨j, inside, rfl⟩
    have free := of_decide_eq_true (run.run j inside)
    rwa [← Nat.add_assoc, ← Nat.mod_add_mod, start] at free
  · simp only [markTail_apply]
    rw [if_neg (fun marked => ((marks foundStart).mp marked).2 rfl), update_self]
  · intro p owns other
    simp only [markTail_apply]
    rw [if_pos ((marks p).mpr ⟨owns, other⟩)]
  · intro p foreign
    have other : p ≠ foundStart := by
      rintro rfl
      exact foreign (Block.owns_start positive bound)
    simp only [markTail_apply]
    rw [if_neg (fun marked => foreign ((marks p).mp marked).1), update_of_ne other]

/-! ## Clearing -/

theorem freeTail_apply (fuel : Nat) {i : Nat} (enough : numPages ≤ i + fuel)
    (pageTable : PageTable) (p : Nat) :
    freeTail fuel i pageTable p =
      if i ≤ p ∧ p < numPages ∧ ∀ q, i ≤ q → q ≤ p → pageTable q = 2 then 0
      else pageTable p := by
  induction fuel generalizing i pageTable with
  | zero =>
      rw [if_neg (fun cleared => by omega)]
      rfl
  | succ fuel ih =>
      rw [freeTail]
      split
      · rename_i tail
        rw [ih (by omega)]
        by_cases here : p = i
        · subst here
          rw [if_neg (fun cleared => by omega), update_self, if_pos]
          refine ⟨Nat.le_refl p, tail.1, ?_⟩
          intro q lower upper
          cases Nat.le_antisymm lower upper
          exact tail.2
        · rw [update_of_ne here]
          congr 1
          refine propext ⟨?_, ?_⟩
          · rintro ⟨lower, bound, all⟩
            refine ⟨by omega, bound, ?_⟩
            intro q lower' upper'
            by_cases first : q = i
            · rw [first]
              exact tail.2
            · have kept := all q (by omega) upper'
              rwa [update_of_ne first] at kept
          · rintro ⟨lower, bound, all⟩
            refine ⟨by omega, bound, ?_⟩
            intro q lower' upper'
            rw [update_of_ne (by omega)]
            exact all q (by omega) upper'
      · rename_i stop
        rw [if_neg]
        rintro ⟨lower, bound, all⟩
        exact stop ⟨by omega, all i (Nat.le_refl i) lower⟩

theorem Block.startPage (block : Block) :
    (block.ptr - blockHeaderSize) / pageSize = block.start := by
  rw [Block.ptr, Nat.add_sub_cancel]
  exact Nat.mul_div_cancel block.start (by decide)

theorem start_of_ptr (start : Nat) : (start * pageSize + blockHeaderSize) / pageSize = start := by
  rw [Nat.add_comm, Nat.add_mul_div_right _ _ (by decide)]
  exact Nat.zero_add start

/-- The pages `kfree` clears: the head and the tail parts that follow it. -/
def Cleared (heap : Heap) (start p : Nat) : Prop :=
  p = start ∨ (start < p ∧ p < numPages ∧ ∀ q, start < q → q ≤ p → heap.pageTable q = 2)

theorem kfree_cleared {heap : Heap} {block : Block}
    (head : heap.pageTable block.start = 1) {p : Nat} (cleared : Cleared heap block.start p) :
    (kfree heap (some block.ptr)).pageTable p = 0 := by
  simp only [kfree, block.startPage, head, if_true]
  rw [freeTail_apply numPages (by omega)]
  rcases cleared with rfl | ⟨lower, bound, all⟩
  · rw [if_neg (fun cleared => by omega), update_self]
  · rw [if_pos]
    refine ⟨by omega, bound, ?_⟩
    intro q lower' upper'
    rw [update_of_ne (by omega)]
    exact all q (by omega) upper'

theorem kfree_kept {heap : Heap} {block : Block}
    (head : heap.pageTable block.start = 1) {p : Nat} (kept : ¬ Cleared heap block.start p) :
    (kfree heap (some block.ptr)).pageTable p = heap.pageTable p := by
  have other : p ≠ block.start := fun same => kept (Or.inl same)
  simp only [kfree, block.startPage, head, if_true]
  rw [freeTail_apply numPages (by omega), update_of_ne other, if_neg]
  rintro ⟨lower, bound, all⟩
  refine kept (Or.inr ⟨by omega, bound, ?_⟩)
  intro q lower' upper'
  have tail := all q (by omega) upper'
  rwa [update_of_ne (by omega)] at tail

theorem kfree_lastPageIndex (heap : Heap) (block : Block) :
    (kfree heap (some block.ptr)).lastPageIndex = heap.lastPageIndex := by
  simp only [kfree]
  split <;> rfl

end ApnaOS.Memory
