import ApnaOS.Memory.Isolation

/-!
# When a block lies inside the array

The scan counts free pages modulo `NUM_PAGES`, so a run may begin at the end of
the array and continue at its start.  That happens in one situation, which the
page table and the scan position show before the call.
-/

set_option autoImplicit false

namespace ApnaOS.Memory

open ApnaOS.Lib

/-- No `wanted` free pages in a row lie between the scan position and the end of
the array, but those at its very end and those at its start, before the scan
position, make up `wanted`. -/
def Straddles (heap : Heap) (wanted : Nat) : Prop :=
  (∀ s, heap.lastPageIndex ≤ s → s + wanted ≤ numPages →
    ∃ j, j < wanted ∧ heap.pageTable (s + j) ≠ 0) ∧
  ∃ atEnd atFront, 0 < atEnd ∧ 0 < atFront ∧ atEnd + atFront = wanted ∧
    heap.lastPageIndex + atEnd ≤ numPages ∧ atFront ≤ heap.lastPageIndex ∧
    (∀ p, numPages ≤ p + atEnd → p < numPages → heap.pageTable p = 0) ∧
    ∀ p, p < atFront → heap.pageTable p = 0

theorem freeAt_iff (heap : Heap) (i : Nat) :
    freeAt heap i = true ↔ heap.pageTable ((heap.lastPageIndex + i) % numPages) = 0 :=
  decide_eq_true_iff

theorem freeAt_before_end {heap : Heap} {i : Nat} (before : heap.lastPageIndex + i < numPages) :
    freeAt heap i = true ↔ heap.pageTable (heap.lastPageIndex + i) = 0 := by
  rw [freeAt_iff, Nat.mod_eq_of_lt before]

theorem freeAt_past_end {heap : Heap} (bound : heap.lastPageIndex < numPages) {i : Nat}
    (range : i < numPages) (past : numPages ≤ heap.lastPageIndex + i) :
    freeAt heap i = true ↔ heap.pageTable (heap.lastPageIndex + i - numPages) = 0 := by
  rw [freeAt_iff, Nat.mod_eq_sub_mod past, Nat.mod_eq_of_lt (by omega)]

/-- Free pages at the very end of the array, not before the scan position, and at
its start, before the scan position, that make up `wanted`. -/
def FreeRoundEnd (heap : Heap) (wanted : Nat) : Prop :=
  ∃ atEnd atFront, 0 < atEnd ∧ 0 < atFront ∧ atEnd + atFront = wanted ∧
    heap.lastPageIndex + atEnd ≤ numPages ∧ atFront ≤ heap.lastPageIndex ∧
    (∀ p, numPages ≤ p + atEnd → p < numPages → heap.pageTable p = 0) ∧
    ∀ p, p < atFront → heap.pageTable p = 0

/-- `wanted` free pages in a row in the order of the scan. -/
def ScanRun (heap : Heap) (wanted i : Nat) : Prop :=
  i + wanted ≤ numPages ∧ ∀ j, j < wanted → freeAt heap (i + j) = true

theorem freeRoundEnd_of_scanRun {heap : Heap} (bound : heap.lastPageIndex < numPages)
    {wanted i : Nat} (run : ScanRun heap wanted i) (begins : heap.lastPageIndex + i < numPages)
    (ends : numPages < heap.lastPageIndex + i + wanted) : FreeRoundEnd heap wanted := by
  obtain ⟨fits, free⟩ := run
  refine ⟨numPages - heap.lastPageIndex - i, wanted - (numPages - heap.lastPageIndex - i),
    by omega, by omega, by omega, by omega, by omega, ?_, ?_⟩
  · intro p atEnd range
    have here := free (p - heap.lastPageIndex - i) (by omega)
    have same : heap.lastPageIndex + (i + (p - heap.lastPageIndex - i)) = p := by omega
    rw [freeAt_before_end (by omega), same] at here
    exact here
  · intro p atFront
    have here := free (numPages - heap.lastPageIndex - i + p) (by omega)
    have same : heap.lastPageIndex + (i + (numPages - heap.lastPageIndex - i + p)) - numPages =
        p := by omega
    rw [freeAt_past_end bound (by omega) (by omega), same] at here
    exact here

theorem FreeRoundEnd.exists_scanRun {heap : Heap} (bound : heap.lastPageIndex < numPages)
    {wanted : Nat} (round : FreeRoundEnd heap wanted) :
    ∃ i, ScanRun heap wanted i ∧ heap.lastPageIndex + i < numPages := by
  obtain ⟨atEnd, atFront, someEnd, someFront, rfl, endFits, frontFits, endFree, frontFree⟩ := round
  refine ⟨numPages - atEnd - heap.lastPageIndex, ⟨by omega, ?_⟩, by omega⟩
  intro j inside
  by_cases before : j < atEnd
  · rw [freeAt_before_end (by omega)]
    exact endFree _ (by omega) (by omega)
  · rw [freeAt_past_end bound (by omega) (by omega)]
    exact frontFree _ (by omega)

/-- The first run goes over the end of the array exactly when the table straddles. -/
theorem straddles_iff {heap : Heap} (bound : heap.lastPageIndex < numPages) (wanted : Nat) :
    Straddles heap wanted ↔ ∃ s, FirstRun (freeAt heap) numPages wanted s ∧
      heap.lastPageIndex + s < numPages ∧ numPages < heap.lastPageIndex + s + wanted := by
  constructor
  · rintro ⟨nowhere, round⟩
    obtain ⟨i, ⟨fits, run⟩, begins⟩ := FreeRoundEnd.exists_scanRun bound round
    obtain ⟨s, early, found⟩ := exists_firstRun fits run
    refine ⟨s, found, by omega, ?_⟩
    by_contra within
    obtain ⟨j, inside, occupied⟩ := nowhere (heap.lastPageIndex + s) (by omega) (by omega)
    rw [Nat.add_assoc] at occupied
    exact occupied ((freeAt_before_end (by omega)).mp (found.run j inside))
  · rintro ⟨s, found, begins, ends⟩
    refine ⟨?_, freeRoundEnd_of_scanRun bound ⟨found.fits, found.run⟩ begins ends⟩
    intro start after within
    obtain ⟨j, inside, occupied⟩ := found.first (start - heap.lastPageIndex) (by omega)
    refine ⟨j, inside, ?_⟩
    intro free
    have same : heap.lastPageIndex + (start - heap.lastPageIndex + j) = start + j := by omega
    rw [(freeAt_before_end (by omega)).mpr (by rwa [same])] at occupied
    cases occupied

theorem findPages_inside_iff {heap : Heap} (bound : heap.lastPageIndex < numPages) (wanted : Nat) :
    (∀ start, findPages heap wanted numPages 0 0 none = some start →
      start + wanted ≤ numPages) ↔ ¬ Straddles heap wanted := by
  rcases Nat.eq_zero_or_pos wanted with zero | positive
  · subst zero
    refine iff_of_true (fun start found => ?_) ?_
    · rw [findPages_zero] at found
      cases found
    · rintro ⟨_, atEnd, atFront, _, _, none_wanted, _⟩
      omega
  · rw [straddles_iff bound]
    simp only [findPages_eq_some_iff heap positive]
    constructor
    · rintro inside ⟨s, found, begins, ends⟩
      have within := inside _ ⟨s, found, rfl⟩
      rw [Nat.mod_eq_of_lt begins] at within
      omega
    · rintro never start ⟨s, found, rfl⟩
      have fits := found.fits
      by_cases begins : heap.lastPageIndex + s < numPages
      · rw [Nat.mod_eq_of_lt begins]
        by_contra ends
        exact never ⟨s, found, begins, by omega⟩
      · rw [Nat.mod_eq_sub_mod (by omega), Nat.mod_eq_of_lt (by omega)]
        omega

theorem findPages_inside_of_some {heap : Heap} (bound : heap.lastPageIndex < numPages)
    {wanted start : Nat} (found : findPages heap wanted numPages 0 0 none = some start) :
    Block.Inside ⟨start, wanted⟩ ↔ ¬ Straddles heap wanted := by
  rw [← findPages_inside_iff bound wanted]
  constructor
  · intro inside other found'
    cases Option.some.inj (found.symm.trans found')
    exact inside
  · intro inside
    exact inside start found

theorem allocatePages_inside_iff {heap : Heap} (bound : heap.lastPageIndex < numPages)
    (wanted : Nat) :
    (∀ address, (allocatePages heap wanted).1 = some address →
      address + wanted * pageSize ≤ kernelMemorySize) ↔ ¬ Straddles heap wanted := by
  rw [← findPages_inside_iff bound wanted]
  have scaled : ∀ start, start * pageSize + wanted * pageSize ≤ kernelMemorySize ↔
      start + wanted ≤ numPages := by
    intro start
    rw [← Nat.add_mul]
    exact (Nat.le_div_iff_mul_le (by decide)).symm
  cases scan : findPages heap wanted numPages 0 0 none with
  | none => simp [allocatePages_none scan]
  | some start =>
      obtain ⟨after, given, _⟩ := allocatePages_some scan
      simp [given, scaled]

/-! ## Runs -/

/-- A `kmalloc` whose pages would go over the end of the array. -/
def KmallocStraddles (state : HeapState) : HeapAction → Prop
  | .kmalloc size => Straddles state.heap (pagesFor size)
  | .kfree _ => False

def AllInside (state : HeapState) : Prop := ∀ block ∈ state.live, block.Inside

theorem heapStep_allInside_iff {state next : HeapState} {action : HeapAction}
    (invariant : HeapInvariant state) (inside : AllInside state)
    (taken : heapStep state action = some next) :
    AllInside next ↔ ¬ KmallocStraddles state action := by
  have bound := invariant.lastPageIndex_lt
  rcases heapStep_cases taken with ⟨size, rfl, rfl, full⟩ | ⟨size, start, _, rfl, found, _, rfl⟩ |
    ⟨block, rfl, _, rfl⟩
  · refine iff_of_true inside ((findPages_inside_iff bound _).mp ?_)
    intro start found
    rw [full] at found
    cases found
  · refine Iff.trans ?_ (findPages_inside_of_some bound found)
    simp only [AllInside, List.mem_cons, forall_eq_or_imp]
    exact and_iff_left inside
  · exact iff_of_true (fun other remains => inside other (List.mem_of_mem_erase remains)) id

/-- In a run every live block stays inside the array exactly when no `kmalloc` of
the run straddles; and in the state it reaches an allocation of any number of
pages stays inside exactly when the table does not straddle for that number. -/
theorem heap_in_bounds_iff (first : HeapState) (trace : List (Transition HeapState HeapAction))
    (last : HeapState) (initial : heapSystem.initial first)
    (run : heapSystem.Trace first trace last) :
    ((∀ transition ∈ trace, ∀ block ∈ transition.after.live, block.Inside) ↔
      ∀ transition ∈ trace, ¬ KmallocStraddles transition.before transition.action) ∧
    ∀ wanted, (∀ address, (allocatePages last.heap wanted).1 = some address →
      address + wanted * pageSize ≤ kernelMemorySize) ↔ ¬ Straddles last.heap wanted := by
  constructor
  · have empty : first = ⟨memoryInit, []⟩ := initial
    subst empty
    refine run.good_iff HeapInvariant AllInside
      (fun state action => ¬ KmallocStraddles state action) ?_ heapInvariant_initial
      (fun block member => absurd member List.not_mem_nil)
    intro state action next invariant inside taken
    exact ⟨heapStep_allInside_iff invariant inside taken,
      fun _ => heapStep_invariant invariant taken⟩
  · intro wanted
    have reachable : heapSystem.Reachable last := ⟨first, trace, initial, run⟩
    exact allocatePages_inside_iff (reachable_heapInvariant reachable).lastPageIndex_lt wanted

theorem heap_in_bounds_iff_after_kfree : ∃ trace last,
    heapSystem.record ⟨memoryInit, []⟩ heapActions = some (trace, last) ∧
    ((∀ transition ∈ trace, ∀ block ∈ transition.after.live, block.Inside) ↔
      ∀ transition ∈ trace, ¬ KmallocStraddles transition.before transition.action) ∧
    ∀ wanted, (∀ address, (allocatePages last.heap wanted).1 = some address →
      address + wanted * pageSize ≤ kernelMemorySize) ↔ ¬ Straddles last.heap wanted := by
  obtain ⟨trace, last, recorded, _⟩ := heapActions_recorded
  exact ⟨trace, last, recorded,
    heap_in_bounds_iff _ trace last rfl (System.trace_of_record recorded)⟩

/-! ## A heap that straddles -/

theorem findPages_empty {heap : Heap} (empty : ∀ p, p < numPages → heap.pageTable p = 0)
    (bound : heap.lastPageIndex < numPages) {wanted : Nat} (positive : 0 < wanted)
    (fits : wanted ≤ numPages) :
    findPages heap wanted numPages 0 0 none = some heap.lastPageIndex := by
  rw [findPages_eq_some_iff heap positive]
  refine ⟨0, ⟨by omega, ?_, fun earlier lower => absurd lower (Nat.not_lt_zero earlier)⟩,
    Nat.mod_eq_of_lt bound⟩
  intro j _
  rw [freeAt_iff]
  exact empty _ (Nat.mod_lt _ (by decide))

theorem kmalloc_empty {state : HeapState} (reachable : heapSystem.Reachable state)
    (empty : ∀ p, p < numPages → state.heap.pageTable p = 0) (size : UInt32)
    (positive : 0 < pagesFor size) (fits : pagesFor size ≤ numPages) :
    ∃ after, kmalloc state.heap size =
        (some (Block.ptr ⟨state.heap.lastPageIndex, pagesFor size⟩), after) ∧
      Allocated state.heap ⟨state.heap.lastPageIndex, pagesFor size⟩ after ∧
      heapSystem.Reachable
        ⟨after, ⟨state.heap.lastPageIndex, pagesFor size⟩ :: state.live⟩ := by
  have bound := (reachable_heapInvariant reachable).lastPageIndex_lt
  obtain ⟨after, given, allocated⟩ :=
    allocatePages_some (findPages_empty empty bound positive fits)
  exact ⟨after, kmalloc_some given, allocated, reachable_kmalloc reachable given⟩

/-- All pages but the last were allocated as one block and freed again. -/
def sweptHeap : Heap := kfree (kmalloc memoryInit 16773112).2 (some 8)

theorem sweptHeap_spec :
    heapSystem.Reachable ⟨sweptHeap, []⟩ ∧ sweptHeap.lastPageIndex = 4095 ∧
      ∀ p, p < numPages → sweptHeap.pageTable p = 0 := by
  have wanted : pagesFor 16773112 = 4095 := by decide
  have start : heapSystem.Reachable ⟨memoryInit, []⟩ := System.reachable_initial rfl
  obtain ⟨after, given, allocated, reachable⟩ :=
    kmalloc_empty start (fun _ _ => rfl) 16773112 (by rw [wanted]; decide) (by rw [wanted]; decide)
  have position : memoryInit.lastPageIndex = 0 := rfl
  simp only [wanted, position] at given allocated reachable
  have swept : sweptHeap = kfree after (some (Block.ptr ⟨0, 4095⟩)) := by
    rw [sweptHeap, given]
    rfl
  have freed : heapSystem.step ⟨after, [⟨0, 4095⟩]⟩ (.kfree ⟨0, 4095⟩) =
      some ⟨sweptHeap, []⟩ := by
    rw [swept]
    simp [heapSystem, heapStep]
  refine ⟨reachable.step freed, ?_, ?_⟩
  · rw [swept, kfree_lastPageIndex, allocated.next]
    rfl
  · intro p bound
    rw [swept]
    by_cases cleared : Cleared after 0 p
    · exact kfree_cleared allocated.head cleared
    · rw [kfree_kept allocated.head cleared]
      have foreign : ¬ Block.Owns ⟨0, 4095⟩ p := by
        intro owns
        refine cleared (Or.inr ⟨?_, bound, ?_⟩)
        · by_contra zero
          exact cleared (Or.inl (by omega))
        · intro q lower upper
          refine allocated.tail q ?_ (Nat.ne_of_gt lower)
          exact owns.downward (by decide) (by decide) upper (Or.inr (Nat.zero_le q))
      exact allocated.others p foreign

-- Unification must not run the allocator on it.
attribute [irreducible] sweptHeap

/-- Two pages are then taken at page 4095: the second lies behind the array. -/
theorem two_pages_leave_the_array :
    heapSystem.Reachable ⟨sweptHeap, []⟩ ∧
      (allocatePages sweptHeap 2).1 = some (4095 * pageSize) ∧
      kernelMemorySize < 4095 * pageSize + 2 * pageSize := by
  obtain ⟨reachable, position, empty⟩ := sweptHeap_spec
  have found : findPages sweptHeap 2 numPages 0 0 none = some 4095 := by
    rw [← position]
    exact findPages_empty empty (by rw [position]; decide) (by decide) (by decide)
  obtain ⟨_, given, _⟩ := allocatePages_some found
  exact ⟨reachable, by rw [given], by decide⟩

end ApnaOS.Memory
