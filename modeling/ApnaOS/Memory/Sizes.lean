import Mathlib.Data.Finset.Card
import ApnaOS.Memory.Completeness
import ApnaOS.Memory.Isolation

/-!
# The size arithmetic of `kmalloc`

Adding the header and rounding up to pages are both done in 32 bits.  A size
whose rounding goes past the end asks for no page and is refused.  For the last
seven sizes the header already goes past the end: they ask for one page.
-/

set_option autoImplicit false

namespace ApnaOS.Memory

open ApnaOS.Lib

/-- The number of pages a call turned from free to taken. -/
def reservedPages (before after : Heap) : Nat :=
  ((Finset.range numPages).filter fun p =>
    before.pageTable p = 0 ∧ after.pageTable p ≠ 0).card

theorem Allocated.taken_iff {before after : Heap} {block : Block}
    (allocated : Allocated before block after) (p : Nat) :
    before.pageTable p = 0 ∧ after.pageTable p ≠ 0 ↔ block.Owns p := by
  constructor
  · rintro ⟨free, taken⟩
    by_contra foreign
    exact taken ((allocated.others p foreign).trans free)
  · intro owns
    exact ⟨allocated.wasFree p owns, allocated.marked.nonzero owns⟩

theorem Allocated.reservedPages_eq {before after : Heap} {block : Block}
    (allocated : Allocated before block after) :
    reservedPages before after = block.pages := by
  have pages : ((Finset.range numPages).filter fun p =>
      before.pageTable p = 0 ∧ after.pageTable p ≠ 0) =
      (Finset.range block.pages).image fun j => (block.start + j) % numPages := by
    ext p
    simp only [Finset.mem_filter, Finset.mem_range, Finset.mem_image, allocated.taken_iff]
    exact ⟨fun taken => taken.2, fun owns => ⟨Block.Owns.lt owns, owns⟩⟩
  have distinct : Set.InjOn (fun j => (block.start + j) % numPages)
      (Finset.range block.pages) := by
    intro i iLower j jLower same
    have bound := allocated.pages_le
    simp only [Finset.coe_range, Set.mem_Iio, numPages_eq] at *
    omega
  rw [reservedPages, pages, Finset.card_image_of_injOn distinct, Finset.card_range]

/-! ## The two additions -/

theorem pagesFor_eq (size : UInt32) :
    pagesFor size = ((size.toNat + 8) % 4294967296 + 4095) % 4294967296 / 4096 := by
  simp only [pagesFor, UInt32.toNat_div, UInt32.toNat_sub, UInt32.toNat_add]
  simp only [UInt32.reduceToNat]
  omega

theorem pagesFor_fits_iff {size : UInt32} (asked : 0 < pagesFor size) :
    size.toNat + blockHeaderSize ≤ pagesFor size * pageSize ↔ size.toNat ≤ 4294967288 := by
  have bound := size.toNat_lt
  rw [pagesFor_eq] at *
  simp only [blockHeaderSize, pageSize]
  omega

theorem pagesFor_last {size : UInt32} (last : 4294967288 < size.toNat) : pagesFor size = 1 := by
  have bound := size.toNat_lt
  rw [pagesFor_eq]
  omega

/-! ## What is handed out -/

/-- A call that returns a block found free pages and reserved as many as the size
arithmetic came to. -/
theorem kmalloc_reserved {heap after : Heap} {size : UInt32} {ptr : Nat}
    (given : kmalloc heap size = (some ptr, after)) :
    0 < pagesFor size ∧ reservedPages heap after = pagesFor size ∧
      ∃ p, p < numPages ∧ heap.pageTable p = 0 := by
  rw [kmalloc] at given
  cases found : findPages heap (pagesFor size) numPages 0 0 none with
  | none =>
      rw [allocatePages_none found] at given
      cases given
  | some start =>
      obtain ⟨marked, result, allocated⟩ := allocatePages_some found
      rw [result] at given
      cases given
      have first := Block.owns_start allocated.positive allocated.start_lt
      exact ⟨allocated.positive, allocated.reservedPages_eq, start, allocated.start_lt,
        allocated.wasFree start first⟩

theorem kmalloc_one_page {heap : Heap} {size : UInt32} (one : pagesFor size = 1) {p : Nat}
    (bound : p < numPages) (free : heap.pageTable p = 0) :
    ∃ ptr after, kmalloc heap size = (some ptr, after) := by
  have run : ∃ i, ScanRun heap 1 i := by
    have seen : (heap.lastPageIndex + (p + numPages - heap.lastPageIndex % numPages) % numPages) %
        numPages = p := by
      rw [numPages_eq] at *
      omega
    have inside : (p + numPages - heap.lastPageIndex % numPages) % numPages < numPages :=
      Nat.mod_lt _ (by decide)
    refine ⟨_, inside, ?_⟩
    intro j onlyZero
    rw [Nat.lt_one_iff.mp onlyZero, Nat.add_zero, freeAt_iff, seen]
    exact free
  cases result : allocatePages heap 1 with
  | mk start after =>
      cases start with
      | none =>
          have nothing : (allocatePages heap 1).1 = none := by rw [result]
          exact absurd run ((allocatePages_eq_none_iff heap Nat.one_pos).mp nothing)
      | some mem => exact ⟨mem + blockHeaderSize, after, by rw [kmalloc, one, result]⟩

/-- A block is never smaller than asked exactly when the header does not run past the
end of the 32-bit range, or there is no page to hand out. -/
theorem kmalloc_fits_iff (heap : Heap) (size : UInt32) :
    (∀ ptr after, kmalloc heap size = (some ptr, after) →
      size.toNat + blockHeaderSize ≤ reservedPages heap after * pageSize) ↔
    size.toNat ≤ 4294967288 ∨ ∀ p, p < numPages → heap.pageTable p ≠ 0 := by
  constructor
  · intro fits
    by_contra failing
    push Not at failing
    obtain ⟨last, p, bound, free⟩ := failing
    have one := pagesFor_last last
    obtain ⟨ptr, after, given⟩ := kmalloc_one_page one bound free
    obtain ⟨asked, reserved, _⟩ := kmalloc_reserved given
    have enough := fits ptr after given
    rw [reserved, pagesFor_fits_iff asked] at enough
    omega
  · rintro condition ptr after given
    obtain ⟨asked, reserved, p, bound, free⟩ := kmalloc_reserved given
    rcases condition with small | full
    · rw [reserved, pagesFor_fits_iff asked]
      exact small
    · exact absurd free (full p bound)

/-- The largest size is given one page. -/
theorem last_size_gets_one_page :
    ∃ ptr after, kmalloc memoryInit 4294967295 = (some ptr, after) ∧
      ¬ (4294967295 : UInt32).toNat + blockHeaderSize ≤
        reservedPages memoryInit after * pageSize := by
  have one : pagesFor 4294967295 = 1 := by decide
  have first : memoryInit.pageTable 0 = 0 := rfl
  obtain ⟨ptr, after, given⟩ := kmalloc_one_page one (by decide) first
  obtain ⟨_, reserved, _⟩ := kmalloc_reserved given
  refine ⟨ptr, after, given, ?_⟩
  rw [reserved, one]
  decide

end ApnaOS.Memory
