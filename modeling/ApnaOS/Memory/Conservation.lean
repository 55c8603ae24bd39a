import Mathlib.Data.Finset.Card
import Mathlib.Order.Interval.Finset.Nat
import ApnaOS.Memory.Bounds

/-!
# Conservation of pages

While every live block lies inside the array, `kfree` clears exactly the pages
`kmalloc` marked and no page is lost.  A block that goes over the end keeps the
pages at the start of the array marked when it is freed.
-/

set_option autoImplicit false

namespace ApnaOS.Memory

open ApnaOS.Lib

def freePages (heap : Heap) : Nat :=
  ((Finset.range numPages).filter fun p => heap.pageTable p = 0).card

def totalPages (blocks : List Block) : Nat :=
  blocks.foldr (fun block total => block.pages + total) 0

def kfreeAll (heap : Heap) (blocks : List Block) : Heap :=
  blocks.foldl (fun heap block => kfree heap (some block.ptr)) heap

/-- Nothing is lost: `kfree` clears exactly the pages of its block, the free pages
are those not in live blocks, and freeing every live block, in any order, empties
the table. -/
structure Conserved (state : HeapState) : Prop where
  clears : ∀ block ∈ state.live, ∀ p, block.Owns p →
    (kfree state.heap (some block.ptr)).pageTable p = 0
  keeps : ∀ block ∈ state.live, ∀ p, ¬ block.Owns p →
    (kfree state.heap (some block.ptr)).pageTable p = state.heap.pageTable p
  counted : freePages state.heap + totalPages state.live = numPages
  emptied : ∀ order : List Block, order.Perm state.live → ∀ p, p < numPages →
    (kfreeAll state.heap order).pageTable p = 0

/-- All live blocks lie inside the array and every marked page is in one of them. -/
structure Tiled (state : HeapState) : Prop extends HeapInvariant state where
  inside : AllInside state
  covered : ∀ p, p < numPages → state.heap.pageTable p ≠ 0 →
    ∃ block ∈ state.live, block.Owns p

theorem tiled_initial : Tiled ⟨memoryInit, []⟩ where
  toHeapInvariant := heapInvariant_initial
  inside := fun _ member => absurd member List.not_mem_nil
  covered := fun _ _ marked => absurd rfl marked

/-- In a tiled state the pages `kfree` clears are those of the block. -/
theorem Tiled.cleared_iff {state : HeapState} (tiled : Tiled state) {block : Block}
    (member : block ∈ state.live) (p : Nat) :
    Cleared state.heap block.start p ↔ block.Owns p := by
  have marked := tiled.marked block member
  have inside := tiled.inside block member
  constructor
  · intro cleared
    rw [inside.owns_iff]
    rcases cleared with first | ⟨lower, bound, all⟩
    · have positive := marked.positive
      omega
    · refine ⟨by omega, ?_⟩
      -- the first page behind the block is free or a head
      by_contra beyond
      have tail := all (block.start + block.pages) (by have := marked.positive; omega) (by omega)
      have nonzero : state.heap.pageTable (block.start + block.pages) ≠ 0 := by
        rw [tail]
        decide
      obtain ⟨other, member', owns⟩ := tiled.covered _ (by omega) nonzero
      have marked' := tiled.marked other member'
      have inside' := tiled.inside other member'
      have range := (inside'.owns_iff _).mp owns
      have notHead : other.start ≠ block.start + block.pages := by
        intro same
        rw [← same, marked'.head] at tail
        cases tail
      have last : block.Owns (block.start + block.pages - 1) := by
        have positive := marked.positive
        exact (inside.owns_iff _).mpr (by omega)
      have last' : other.Owns (block.start + block.pages - 1) :=
        (inside'.owns_iff _).mpr (by omega)
      have different : block ≠ other := by
        intro same
        subst same
        omega
      exact tiled.apart_of_ne member member' different _ last last'
  · intro owns
    have range := (inside.owns_iff p).mp owns
    by_cases first : p = block.start
    · exact Or.inl first
    · refine Or.inr ⟨by omega, owns.lt, ?_⟩
      intro q lower upper
      exact marked.tail q ((inside.owns_iff q).mpr (by omega)) (by omega)

theorem Tiled.clears {state : HeapState} (tiled : Tiled state) {block : Block}
    (member : block ∈ state.live) {p : Nat} (owns : block.Owns p) :
    (kfree state.heap (some block.ptr)).pageTable p = 0 :=
  kfree_cleared (tiled.marked block member).head ((tiled.cleared_iff member p).mpr owns)

theorem Tiled.keeps {state : HeapState} (tiled : Tiled state) {block : Block}
    (member : block ∈ state.live) {p : Nat} (foreign : ¬ block.Owns p) :
    (kfree state.heap (some block.ptr)).pageTable p = state.heap.pageTable p :=
  kfree_kept (tiled.marked block member).head
    (fun cleared => foreign ((tiled.cleared_iff member p).mp cleared))

/-! ## Steps -/

theorem Tiled.allocated {state : HeapState} (tiled : Tiled state) {block : Block} {after : Heap}
    (allocated : Allocated state.heap block after) (inside : block.Inside) :
    Tiled ⟨after, block :: state.live⟩ where
  toHeapInvariant := tiled.toHeapInvariant.allocated allocated
  inside := by
    intro other member
    rcases List.mem_cons.mp member with same | member'
    · rw [same]
      exact inside
    · exact tiled.inside other member'
  covered := by
    intro p bound marked
    by_cases owns : block.Owns p
    · exact ⟨block, List.mem_cons_self, owns⟩
    · rw [allocated.others p owns] at marked
      obtain ⟨other, member, owns'⟩ := tiled.covered p bound marked
      exact ⟨other, List.mem_cons_of_mem block member, owns'⟩

theorem Tiled.freed {state : HeapState} (tiled : Tiled state) {block : Block}
    (member : block ∈ state.live) :
    Tiled ⟨kfree state.heap (some block.ptr), state.live.erase block⟩ where
  toHeapInvariant := tiled.toHeapInvariant.freed member
  inside := fun other remains => tiled.inside other (List.mem_of_mem_erase remains)
  covered := by
    intro p bound marked
    have foreign : ¬ block.Owns p := fun owns => marked (tiled.clears member owns)
    have marked' : state.heap.pageTable p ≠ 0 := by
      rw [← tiled.keeps member foreign]
      exact marked
    obtain ⟨other, member', owns⟩ := tiled.covered p bound marked'
    have different : other ≠ block := by
      intro same
      rw [same] at owns
      exact foreign owns
    exact ⟨other, (List.mem_erase_of_ne different).mpr member', owns⟩

theorem heapStep_tiled {state next : HeapState} {action : HeapAction} (tiled : Tiled state)
    (taken : heapStep state action = some next) (within : ¬ KmallocStraddles state action) :
    Tiled next := by
  rcases heapStep_cases taken with ⟨size, _, same, _⟩ |
    ⟨size, start, after, action_eq, found, allocated, next_eq⟩ |
    ⟨block, _, member, next_eq⟩
  · rw [same]
    exact tiled
  · subst action_eq next_eq
    exact tiled.allocated allocated
      ((findPages_inside_of_some tiled.lastPageIndex_lt found).mpr within)
  · rw [next_eq]
    exact tiled.freed member

/-! ## Counting -/

theorem card_owned (blocks : List Block) (inside : ∀ block ∈ blocks, block.Inside)
    (apart : blocks.Pairwise Apart) (owned : Nat → Prop) [DecidablePred owned]
    (owned_iff : ∀ p, owned p ↔ ∃ block ∈ blocks, block.Owns p) :
    ((Finset.range numPages).filter owned).card = totalPages blocks := by
  classical
  induction blocks generalizing owned with
  | nil =>
      have none_owned : ∀ p, ¬ owned p := by
        intro p holds
        obtain ⟨block, member, _⟩ := (owned_iff p).mp holds
        exact absurd member List.not_mem_nil
      simp [none_owned, totalPages]
  | cons block rest ih =>
      obtain ⟨apart_rest, apart'⟩ := List.pairwise_cons.mp apart
      have here := inside block List.mem_cons_self
      have fits : block.start + block.pages ≤ numPages := here
      have split : (Finset.range numPages).filter owned =
          Finset.Ico block.start (block.start + block.pages) ∪
            (Finset.range numPages).filter fun p => ∃ other ∈ rest, other.Owns p := by
        ext p
        simp only [Finset.mem_filter, Finset.mem_union, Finset.mem_range, Finset.mem_Ico,
          owned_iff, List.exists_mem_cons_iff, here.owns_iff]
        constructor
        · intro member
          rcases member with ⟨bound, range | later⟩
          · exact Or.inl range
          · exact Or.inr ⟨bound, later⟩
        · intro member
          rcases member with range | ⟨bound, later⟩
          · exact ⟨by omega, Or.inl range⟩
          · exact ⟨bound, Or.inr later⟩
      have disjoint : Disjoint (Finset.Ico block.start (block.start + block.pages))
          ((Finset.range numPages).filter fun p => ∃ other ∈ rest, other.Owns p) := by
        rw [Finset.disjoint_left]
        intro p first second
        obtain ⟨_, other, member, owns⟩ := Finset.mem_filter.mp second
        exact apart_rest other member p
          ((here.owns_iff p).mpr (Finset.mem_Ico.mp first)) owns
      rw [split, Finset.card_union_of_disjoint disjoint, Nat.card_Ico,
        ih (fun other member => inside other (List.mem_cons_of_mem block member)) apart' _
          (fun p => Iff.rfl)]
      simp [totalPages]

/-- The pages of a block, also of one that runs over the end of the array. -/
def Block.owned (block : Block) : Finset Nat :=
  (Finset.range block.pages).image fun j => (block.start + j) % numPages

theorem Block.mem_owned {block : Block} {p : Nat} : p ∈ block.owned ↔ block.Owns p := by
  simp only [Block.owned, Finset.mem_image, Finset.mem_range, Block.Owns]

theorem Marked.card_owned {heap : Heap} {block : Block} (marked : Marked heap block) :
    block.owned.card = block.pages := by
  have pages_le := marked.pages_le
  have start_lt := marked.start_lt
  rw [numPages_eq] at pages_le start_lt
  rw [Block.owned, Finset.card_image_of_injOn, Finset.card_range]
  intro i inside j inside' same
  have first := Finset.mem_range.mp (Finset.mem_coe.mp inside)
  have second := Finset.mem_range.mp (Finset.mem_coe.mp inside')
  simp only [numPages_eq] at same
  omega

theorem totalPages_le {heap : Heap} {blocks : List Block}
    (marked : ∀ block ∈ blocks, Marked heap block) (apart : blocks.Pairwise Apart) :
    totalPages blocks ≤ numPages := by
  suffices counted : ∃ pages : Finset Nat, pages.card = totalPages blocks ∧
      ∀ p ∈ pages, ∃ block ∈ blocks, block.Owns p by
    obtain ⟨pages, card, owned⟩ := counted
    have within : pages ⊆ Finset.range numPages := by
      intro p member
      obtain ⟨block, _, owns⟩ := owned p member
      exact Finset.mem_range.mpr owns.lt
    have few := Finset.card_le_card within
    rwa [card, Finset.card_range] at few
  induction blocks with
  | nil => exact ⟨∅, rfl, fun p member => absurd member (Finset.notMem_empty p)⟩
  | cons block rest ih =>
      obtain ⟨here, later⟩ := List.forall_mem_cons.mp marked
      obtain ⟨apart_rest, apart'⟩ := List.pairwise_cons.mp apart
      obtain ⟨pages, card, owned⟩ := ih later apart'
      have disjoint : Disjoint block.owned pages := by
        rw [Finset.disjoint_left]
        intro p first second
        obtain ⟨other, member, owns⟩ := owned p second
        exact apart_rest other member p (Block.mem_owned.mp first) owns
      refine ⟨block.owned ∪ pages, ?_, ?_⟩
      · rw [Finset.card_union_of_disjoint disjoint, here.card_owned, card]
        rfl
      · intro p member
        rcases Finset.mem_union.mp member with first | second
        · exact ⟨block, List.mem_cons_self, Block.mem_owned.mp first⟩
        · obtain ⟨other, member', owns⟩ := owned p second
          exact ⟨other, List.mem_cons_of_mem block member', owns⟩

theorem HeapInvariant.totalPages_le {state : HeapState} (invariant : HeapInvariant state) :
    totalPages state.live ≤ numPages :=
  Memory.totalPages_le invariant.marked invariant.apart

theorem Tiled.nonzero_iff {state : HeapState} (tiled : Tiled state) {p : Nat}
    (bound : p < numPages) :
    state.heap.pageTable p ≠ 0 ↔ ∃ block ∈ state.live, block.Owns p := by
  constructor
  · exact tiled.covered p bound
  · intro owned
    obtain ⟨block, member, owns⟩ := owned
    exact (tiled.marked block member).nonzero owns

theorem Tiled.counted {state : HeapState} (tiled : Tiled state) :
    freePages state.heap + totalPages state.live = numPages := by
  classical
  have marked : ((Finset.range numPages).filter fun p => ¬ state.heap.pageTable p = 0) =
      (Finset.range numPages).filter fun p => ∃ block ∈ state.live, block.Owns p := by
    apply Finset.filter_congr
    intro p member
    exact tiled.nonzero_iff (Finset.mem_range.mp member)
  have owned := card_owned state.live tiled.inside tiled.apart
    (fun p => ∃ block ∈ state.live, block.Owns p) (fun p => Iff.rfl)
  have total := Finset.card_filter_add_card_filter_not
    (fun p => state.heap.pageTable p = 0) (s := Finset.range numPages)
  rw [marked, owned, Finset.card_range] at total
  exact total

theorem Tiled.emptied {state : HeapState} (tiled : Tiled state) (order : List Block)
    (perm : order.Perm state.live) {p : Nat} (bound : p < numPages) :
    (kfreeAll state.heap order).pageTable p = 0 := by
  induction order generalizing state with
  | nil =>
      by_contra marked
      obtain ⟨block, member, _⟩ := tiled.covered p bound marked
      rw [← perm.nil_eq] at member
      exact absurd member List.not_mem_nil
  | cons block rest ih =>
      have member : block ∈ state.live := perm.subset List.mem_cons_self
      have perm' : rest.Perm (state.live.erase block) := by
        have erased := perm.erase block
        rwa [List.erase_cons_head] at erased
      exact ih (tiled.freed member) perm'

theorem Tiled.conserved {state : HeapState} (tiled : Tiled state) : Conserved state where
  clears := fun _ member _ owns => tiled.clears member owns
  keeps := fun _ member _ foreign => tiled.keeps member foreign
  counted := tiled.counted
  emptied := fun order perm _ bound => tiled.emptied order perm bound

/-- A block that goes over the end of the array leaves page 0 marked. -/
theorem kfree_leaks {heap : Heap} {block : Block} (marked : Marked heap block)
    (outside : ¬ block.Inside) :
    block.Owns 0 ∧ (kfree heap (some block.ptr)).pageTable 0 ≠ 0 := by
  have beyond : numPages < block.start + block.pages := Nat.lt_of_not_le outside
  have pages_le := marked.pages_le
  have start_lt := marked.start_lt
  have owns : block.Owns 0 := by
    refine ⟨numPages - block.start, by omega, ?_⟩
    rw [Nat.add_sub_of_le (by omega), Nat.mod_self]
  refine ⟨owns, ?_⟩
  have kept : ¬ Cleared heap block.start 0 := by
    intro cleared
    rcases cleared with first | ⟨lower, _, _⟩
    · omega
    · omega
  rw [kfree_kept marked.head kept]
  exact marked.nonzero owns

theorem heapStep_conserved_iff {state next : HeapState} {action : HeapAction}
    (tiled : Tiled state) (taken : heapStep state action = some next) :
    Conserved next ↔ ¬ KmallocStraddles state action := by
  constructor
  · intro conserved
    rw [← heapStep_allInside_iff tiled.toHeapInvariant tiled.inside taken]
    intro block member
    by_contra outside
    have marked := (heapStep_invariant tiled.toHeapInvariant taken).marked block member
    obtain ⟨owns, leaked⟩ := kfree_leaks marked outside
    exact leaked (conserved.clears block member 0 owns)
  · intro within
    exact (heapStep_tiled tiled taken within).conserved

/-- No page is lost in a run exactly when no `kmalloc` of the run straddles. -/
theorem heap_conserved_iff (first : HeapState) (trace : List (Transition HeapState HeapAction))
    (last : HeapState) (initial : heapSystem.initial first)
    (run : heapSystem.Trace first trace last) :
    (∀ transition ∈ trace, Conserved transition.after) ↔
      ∀ transition ∈ trace, ¬ KmallocStraddles transition.before transition.action := by
  have empty : first = ⟨memoryInit, []⟩ := initial
  subst empty
  refine run.good_iff Tiled Conserved (fun state action => ¬ KmallocStraddles state action)
    ?_ tiled_initial tiled_initial.conserved
  intro state action next tiled _ taken
  have exact_step := heapStep_conserved_iff tiled taken
  exact ⟨exact_step, fun conserved => heapStep_tiled tiled taken (exact_step.mp conserved)⟩

theorem heap_conserved_iff_after_kfree : ∃ trace last,
    heapSystem.record ⟨memoryInit, []⟩ heapActions = some (trace, last) ∧
    ((∀ transition ∈ trace, Conserved transition.after) ↔
      ∀ transition ∈ trace, ¬ KmallocStraddles transition.before transition.action) := by
  obtain ⟨trace, last, recorded, _⟩ := heapActions_recorded
  exact ⟨trace, last, recorded,
    heap_conserved_iff _ trace last rfl (System.trace_of_record recorded)⟩

/-- Two pages taken at page 4095 and freed again: page 0 stays marked. -/
theorem page_zero_is_lost :
    ∃ heap, heapSystem.Reachable ⟨heap, [⟨4095, 2⟩]⟩ ∧
      (kmalloc sweptHeap 5000) = (some (Block.ptr ⟨4095, 2⟩), heap) ∧
      heapSystem.Reachable ⟨kfree heap (some (Block.ptr ⟨4095, 2⟩)), []⟩ ∧
      (kfree heap (some (Block.ptr ⟨4095, 2⟩))).pageTable 0 ≠ 0 := by
  obtain ⟨reachable, position, empty⟩ := sweptHeap_spec
  have wanted : pagesFor 5000 = 2 := by decide
  obtain ⟨heap, pointer, allocated, taken⟩ :=
    kmalloc_empty reachable empty 5000 (by rw [wanted]; decide) (by rw [wanted]; decide)
  simp only [wanted, position] at pointer allocated taken
  have freed : heapSystem.step ⟨heap, [⟨4095, 2⟩]⟩ (.kfree ⟨4095, 2⟩) =
      some ⟨kfree heap (some (Block.ptr ⟨4095, 2⟩)), []⟩ := by
    simp [heapSystem, heapStep]
  have outside : ¬ Block.Inside ⟨4095, 2⟩ := by
    intro inside
    have fits : 4095 + 2 ≤ 4096 := inside
    omega
  exact ⟨heap, taken, pointer, taken.step freed,
    (kfree_leaks allocated.marked outside).2⟩

end ApnaOS.Memory
