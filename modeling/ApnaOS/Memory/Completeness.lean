import ApnaOS.Memory.Bounds

/-!
# When the scan misses free pages

The scan starts at `last_page_index` and looks at every page once, so it sees a
run of free pages across that position in two parts, the later pages first.
-/

set_option autoImplicit false

namespace ApnaOS.Memory

open ApnaOS.Lib
open Function (update)

/-- `wanted` free pages in a row from page `start` on. -/
def FreeRun (heap : Heap) (wanted start : Nat) : Prop :=
  start + wanted ≤ numPages ∧ ∀ j, j < wanted → heap.pageTable (start + j) = 0

/-- There are `wanted` free pages in a row, but the scan position lies strictly inside
all such runs, and there are not as many round the end of the array. -/
def SplitByScan (heap : Heap) (wanted : Nat) : Prop :=
  (∃ start, FreeRun heap wanted start) ∧
  (∀ start, FreeRun heap wanted start →
    start < heap.lastPageIndex ∧ heap.lastPageIndex < start + wanted) ∧
  ¬ FreeRoundEnd heap wanted

theorem scanRun_before_end {heap : Heap} {wanted i : Nat}
    (within : heap.lastPageIndex + i + wanted ≤ numPages) :
    ScanRun heap wanted i ↔ FreeRun heap wanted (heap.lastPageIndex + i) := by
  refine and_congr ⟨fun _ => within, fun _ => by omega⟩ (forall₂_congr fun j inside => ?_)
  rw [freeAt_before_end (by omega), Nat.add_assoc]

theorem scanRun_past_end {heap : Heap} (bound : heap.lastPageIndex < numPages) {wanted i : Nat}
    (past : numPages ≤ heap.lastPageIndex + i) (fits : i + wanted ≤ numPages) :
    ScanRun heap wanted i ↔ FreeRun heap wanted (heap.lastPageIndex + i - numPages) := by
  refine and_congr ⟨fun _ => by omega, fun _ => fits⟩ (forall₂_congr fun j inside => ?_)
  have same : heap.lastPageIndex + (i + j) - numPages =
      heap.lastPageIndex + i - numPages + j := by omega
  rw [freeAt_past_end bound (by omega) (by omega), same]

/-- The runs the scan sees: those on one side of its position, and those round the end. -/
theorem exists_scanRun_iff {heap : Heap} (bound : heap.lastPageIndex < numPages) (wanted : Nat) :
    (∃ i, ScanRun heap wanted i) ↔
      (∃ start, FreeRun heap wanted start ∧
        (heap.lastPageIndex ≤ start ∨ start + wanted ≤ heap.lastPageIndex)) ∨
      FreeRoundEnd heap wanted := by
  constructor
  · rintro ⟨i, run⟩
    by_cases within : heap.lastPageIndex + i + wanted ≤ numPages
    · exact Or.inl ⟨_, (scanRun_before_end within).mp run, Or.inl (by omega)⟩
    · have fits := run.1
      by_cases begins : heap.lastPageIndex + i < numPages
      · exact Or.inr (freeRoundEnd_of_scanRun bound run begins (by omega))
      · refine Or.inl ⟨_, (scanRun_past_end bound (by omega) fits).mp run, Or.inr (by omega)⟩
  · rintro (⟨start, run, after | before⟩ | round)
    · have fits := run.1
      have same : heap.lastPageIndex + (start - heap.lastPageIndex) = start := by omega
      refine ⟨start - heap.lastPageIndex, (scanRun_before_end (by omega)).mpr ?_⟩
      rwa [same]
    · have same : heap.lastPageIndex + (numPages - heap.lastPageIndex + start) - numPages =
          start := by omega
      refine ⟨numPages - heap.lastPageIndex + start,
        (scanRun_past_end bound (by omega) (by omega)).mpr ?_⟩
      rwa [same]
    · obtain ⟨i, run, _⟩ := round.exists_scanRun bound
      exact ⟨i, run⟩

theorem allocatePages_eq_none_iff (heap : Heap) {wanted : Nat} (positive : 0 < wanted) :
    (allocatePages heap wanted).1 = none ↔ ¬ ∃ i, ScanRun heap wanted i := by
  have scan : findPages heap wanted numPages 0 0 none = none ↔ ¬ ∃ i, ScanRun heap wanted i := by
    rw [findPages_eq heap wanted numPages (Nat.le_refl 0) (by simp), Option.map_eq_none_iff]
    exact scanRun_start_eq_none_iff positive
  rw [← scan]
  cases found : findPages heap wanted numPages 0 0 none with
  | none => simp [allocatePages_none found]
  | some start =>
      obtain ⟨after, given, _⟩ := allocatePages_some found
      simp [given]

/-- `allocate_pages` returns NULL only when there are no `wanted` free pages in a row,
exactly when the scan position does not split all the runs there are. -/
theorem allocatePages_complete_iff (state : HeapState) (reachable : heapSystem.Reachable state)
    (wanted : Nat) (positive : 1 ≤ wanted) :
    ((allocatePages state.heap wanted).1 = none → ¬ ∃ start, FreeRun state.heap wanted start) ↔
      ¬ SplitByScan state.heap wanted := by
  have bound := (reachable_heapInvariant reachable).lastPageIndex_lt
  rw [allocatePages_eq_none_iff _ positive, exists_scanRun_iff bound]
  constructor
  · rintro complete ⟨run, split, notRound⟩
    refine complete ?_ run
    rintro (⟨start, here, side⟩ | round)
    · have inside := split start here
      omega
    · exact notRound round
  · rintro whole unseen run
    refine whole ⟨run, ?_, fun round => unseen (Or.inr round)⟩
    intro start here
    by_contra outside
    exact unseen (Or.inl ⟨start, here, by omega⟩)

def splitHeap : Heap := kfree (kmalloc (kmalloc memoryInit 1).2 1).2 (some 4104)

theorem splitHeap_reachable : heapSystem.Reachable ⟨splitHeap, [⟨0, 1⟩]⟩ := by
  have start : heapSystem.Reachable ⟨memoryInit, []⟩ := System.reachable_initial rfl
  have first : heapSystem.step ⟨memoryInit, []⟩ (.kmalloc 1) =
      some ⟨(kmalloc memoryInit 1).2, [⟨0, 1⟩]⟩ := rfl
  have second : heapSystem.step ⟨(kmalloc memoryInit 1).2, [⟨0, 1⟩]⟩ (.kmalloc 1) =
      some ⟨(kmalloc (kmalloc memoryInit 1).2 1).2, [⟨1, 1⟩, ⟨0, 1⟩]⟩ := rfl
  have freed : heapSystem.step ⟨(kmalloc (kmalloc memoryInit 1).2 1).2, [⟨1, 1⟩, ⟨0, 1⟩]⟩
      (.kfree ⟨1, 1⟩) = some ⟨splitHeap, [⟨0, 1⟩]⟩ := rfl
  exact ((start.step first).step second).step freed

theorem allocatePages_complete_iff_splitHeap :
    ((allocatePages splitHeap 4095).1 = none → ¬ ∃ start, FreeRun splitHeap 4095 start) ↔
      ¬ SplitByScan splitHeap 4095 :=
  allocatePages_complete_iff ⟨splitHeap, [⟨0, 1⟩]⟩ splitHeap_reachable 4095 (by decide)

theorem splitHeap_lastPageIndex : splitHeap.lastPageIndex = 2 := rfl

theorem splitHeap_pageTable (p : Nat) : splitHeap.pageTable p = if p = 0 then 1 else 0 := by
  have marks : splitHeap.pageTable = update (update (update (fun _ => 0) 0 1) 1 1) 1 0 := rfl
  rw [marks, Function.update_idem, Function.update_apply, Function.update_apply]
  split
  · rename_i second
    simp [second]
  · rfl

/-- Every page but the first is free, and 4095 pages are not found. -/
theorem free_run_is_missed :
    heapSystem.Reachable ⟨splitHeap, [⟨0, 1⟩]⟩ ∧ (allocatePages splitHeap 4095).1 = none ∧
      FreeRun splitHeap 4095 1 := by
  refine ⟨splitHeap_reachable, ?_, by decide, ?_⟩
  · rw [allocatePages_eq_none_iff _ (by decide),
      exists_scanRun_iff (by rw [splitHeap_lastPageIndex]; decide), splitHeap_lastPageIndex]
    rintro (⟨start, ⟨fits, _⟩, side⟩ | ⟨_, atFront, _, someFront, _, _, _, _, frontFree⟩)
    · rw [numPages_eq] at fits
      omega
    · have first := frontFree 0 someFront
      rw [splitHeap_pageTable] at first
      cases first
  · intro j _
    rw [splitHeap_pageTable, if_neg (by omega)]

end ApnaOS.Memory
