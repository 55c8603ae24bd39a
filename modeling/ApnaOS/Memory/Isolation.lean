import Mathlib.Data.List.Pairwise
import Mathlib.Data.List.Nodup
import ApnaOS.Memory.Allocation

/-!
# Isolation of live blocks

A block's end is not recorded.  What keeps `kfree` inside its block is how the
marks lie: the tail parts after a head belong to that head or to nobody, because
the first page of every other live block is marked 1.
-/

set_option autoImplicit false

namespace ApnaOS.Memory

open ApnaOS.Lib
open Function (update update_self update_of_ne)

def Apart (block other : Block) : Prop := ∀ p, block.Owns p → ¬ other.Owns p

theorem Apart.symm {block other : Block} (apart : Apart block other) : Apart other block :=
  fun p owns owns' => apart p owns' owns

instance : Std.Symm Apart := ⟨fun _ _ => Apart.symm⟩

/-- A live block as the page table shows it. -/
structure Marked (heap : Heap) (block : Block) : Prop where
  positive : 0 < block.pages
  pages_le : block.pages ≤ numPages
  start_lt : block.start < numPages
  head : heap.pageTable block.start = 1
  tail : ∀ p, block.Owns p → p ≠ block.start → heap.pageTable p = 2

theorem Marked.owns_start {heap : Heap} {block : Block} (marked : Marked heap block) :
    block.Owns block.start :=
  Block.owns_start marked.positive marked.start_lt

theorem Marked.nonzero {heap : Heap} {block : Block} (marked : Marked heap block) {p : Nat}
    (owns : block.Owns p) : heap.pageTable p ≠ 0 := by
  by_cases first : p = block.start
  · rw [first, marked.head]
    decide
  · rw [marked.tail p owns first]
    decide

theorem Marked.congr {before after : Heap} {block : Block} (marked : Marked before block)
    (same : ∀ p, block.Owns p → after.pageTable p = before.pageTable p) :
    Marked after block where
  positive := marked.positive
  pages_le := marked.pages_le
  start_lt := marked.start_lt
  head := (same _ marked.owns_start).trans marked.head
  tail := fun p owns other => (same p owns).trans (marked.tail p owns other)

theorem Block.Owns.downward {block : Block} {p q : Nat} (owns : block.Owns p)
    (pages_le : block.pages ≤ numPages) (start_lt : block.start < numPages)
    (lower : q ≤ p) (stays : p < block.start ∨ block.start ≤ q) : block.Owns q := by
  obtain ⟨j, inside, here⟩ := owns
  rw [numPages_eq] at *
  by_cases wrapped : block.start ≤ p
  · refine ⟨q - block.start, by omega, ?_⟩
    rw [numPages_eq]
    omega
  · refine ⟨4096 - block.start + q, by omega, ?_⟩
    rw [numPages_eq]
    omega

theorem Marked.not_cleared {heap : Heap} {block other : Block} (marked : Marked heap block)
    (marked' : Marked heap other) (apart : Apart block other) {p : Nat} (owns : other.Owns p) :
    ¬ Cleared heap block.start p := by
  rintro (rfl | ⟨lower, bound, all⟩)
  · exact apart _ marked.owns_start owns
  · by_cases between : block.start < other.start ∧ other.start ≤ p
    · have tail := all other.start between.1 between.2
      rw [marked'.head] at tail
      cases tail
    · have owns' : other.Owns block.start :=
        owns.downward marked'.pages_le marked'.start_lt (by omega) (by omega)
      exact apart _ marked.owns_start owns'

theorem Marked.kfree_keeps {heap : Heap} {block other : Block} (marked : Marked heap block)
    (marked' : Marked heap other) (apart : Apart block other) {p : Nat} (owns : other.Owns p) :
    (kfree heap (some block.ptr)).pageTable p = heap.pageTable p :=
  kfree_kept marked.head (marked.not_cleared marked' apart owns)

theorem Allocated.marked {before after : Heap} {block : Block}
    (allocated : Allocated before block after) : Marked after block where
  positive := allocated.positive
  pages_le := allocated.pages_le
  start_lt := allocated.start_lt
  head := allocated.head
  tail := allocated.tail

theorem Allocated.apart {before after : Heap} {block other : Block}
    (allocated : Allocated before block after) (marked : Marked before other) :
    Apart block other :=
  fun p owns owns' => marked.nonzero owns' (allocated.wasFree p owns)

/-! ## Steps -/

theorem kmalloc_some {heap after : Heap} {size : UInt32} {start : Nat}
    (given : allocatePages heap (pagesFor size) = (some (start * pageSize), after)) :
    kmalloc heap size = (some (Block.ptr ⟨start, pagesFor size⟩), after) := by
  simp only [kmalloc, given, Block.ptr]

theorem heapStep_kmalloc {state : HeapState} {size : UInt32} {start : Nat} {after : Heap}
    (given : allocatePages state.heap (pagesFor size) = (some (start * pageSize), after)) :
    heapStep state (.kmalloc size) = some ⟨after, ⟨start, pagesFor size⟩ :: state.live⟩ := by
  have page : (start * pageSize + blockHeaderSize) / pageSize = start := by
    rw [Nat.add_comm, Nat.add_mul_div_right _ _ (by decide)]
    exact Nat.zero_add start
  simp only [heapStep, kmalloc_some given, Block.ptr, page]

theorem reachable_kmalloc {state : HeapState} (reachable : heapSystem.Reachable state)
    {size : UInt32} {start : Nat} {after : Heap}
    (given : allocatePages state.heap (pagesFor size) = (some (start * pageSize), after)) :
    heapSystem.Reachable ⟨after, ⟨start, pagesFor size⟩ :: state.live⟩ := by
  have taken : heapSystem.step state (.kmalloc size) =
      some ⟨after, ⟨start, pagesFor size⟩ :: state.live⟩ := heapStep_kmalloc given
  exact reachable.step taken

/-- Everything a step can do. -/
theorem heapStep_cases {state next : HeapState} {action : HeapAction}
    (taken : heapStep state action = some next) :
    (∃ size, action = .kmalloc size ∧ next = state ∧
      findPages state.heap (pagesFor size) numPages 0 0 none = none) ∨
    (∃ size start after, action = .kmalloc size ∧
      findPages state.heap (pagesFor size) numPages 0 0 none = some start ∧
      Allocated state.heap ⟨start, pagesFor size⟩ after ∧
      next = ⟨after, ⟨start, pagesFor size⟩ :: state.live⟩) ∨
    ∃ block, action = .kfree block ∧ block ∈ state.live ∧
      next = ⟨kfree state.heap (some block.ptr), state.live.erase block⟩ := by
  cases action with
  | kmalloc size =>
      cases scan : findPages state.heap (pagesFor size) numPages 0 0 none with
      | none =>
          simp only [heapStep, kmalloc, allocatePages_none scan, Option.some.injEq] at taken
          exact Or.inl ⟨size, rfl, taken.symm, scan⟩
      | some start =>
          obtain ⟨after, given, allocated⟩ := allocatePages_some scan
          rw [heapStep_kmalloc given] at taken
          exact Or.inr (Or.inl
            ⟨size, start, after, rfl, scan, allocated, (Option.some.inj taken).symm⟩)
  | kfree block =>
      simp only [heapStep] at taken
      split at taken
      · rename_i live
        exact Or.inr (Or.inr ⟨block, rfl, live, (Option.some.inj taken).symm⟩)
      · cases taken

structure HeapInvariant (state : HeapState) : Prop where
  lastPageIndex_lt : state.heap.lastPageIndex < numPages
  marked : ∀ block ∈ state.live, Marked state.heap block
  apart : state.live.Pairwise Apart

theorem HeapInvariant.nodup {state : HeapState} (invariant : HeapInvariant state) :
    state.live.Nodup := by
  apply invariant.apart.imp_of_mem
  rintro block other member _ apart rfl
  have owns := (invariant.marked block member).owns_start
  exact apart _ owns owns

theorem HeapInvariant.apart_of_ne {state : HeapState} (invariant : HeapInvariant state)
    {block other : Block} (member : block ∈ state.live) (member' : other ∈ state.live)
    (different : block ≠ other) : Apart block other :=
  invariant.apart.forall member member' different

theorem heapInvariant_initial : HeapInvariant ⟨memoryInit, []⟩ where
  lastPageIndex_lt := by decide
  marked := fun block member => absurd member List.not_mem_nil
  apart := List.Pairwise.nil

theorem HeapInvariant.allocated {state : HeapState} (invariant : HeapInvariant state)
    {block : Block} {after : Heap} (allocated : Allocated state.heap block after) :
    HeapInvariant ⟨after, block :: state.live⟩ where
  lastPageIndex_lt := by
    rw [allocated.next]
    exact Nat.mod_lt _ (by decide)
  marked := by
    intro other member
    rcases List.mem_cons.mp member with rfl | member'
    · exact allocated.marked
    · have marked := invariant.marked other member'
      exact marked.congr fun p owns =>
        allocated.others p ((allocated.apart marked).symm p owns)
  apart := List.Pairwise.cons
    (fun other member => allocated.apart (invariant.marked other member)) invariant.apart

theorem HeapInvariant.freed {state : HeapState} (invariant : HeapInvariant state)
    {block : Block} (member : block ∈ state.live) :
    HeapInvariant ⟨kfree state.heap (some block.ptr), state.live.erase block⟩ where
  lastPageIndex_lt := by
    rw [kfree_lastPageIndex]
    exact invariant.lastPageIndex_lt
  marked := by
    intro other remains
    obtain ⟨different, member'⟩ := invariant.nodup.mem_erase_iff.mp remains
    have marked := invariant.marked other member'
    exact marked.congr fun p owns => (invariant.marked block member).kfree_keeps marked
      (invariant.apart_of_ne member member' (Ne.symm different)) owns
  apart := invariant.apart.sublist List.erase_sublist

theorem heapStep_invariant {state next : HeapState} {action : HeapAction}
    (invariant : HeapInvariant state) (taken : heapStep state action = some next) :
    HeapInvariant next := by
  rcases heapStep_cases taken with ⟨_, _, rfl, _⟩ | ⟨_, _, _, _, _, allocated, rfl⟩ |
    ⟨_, _, member, rfl⟩
  · exact invariant
  · exact invariant.allocated allocated
  · exact invariant.freed member

theorem reachable_heapInvariant {state : HeapState} (reachable : heapSystem.Reachable state) :
    HeapInvariant state := by
  refine reachable.invariant ?_ (fun state action next => heapStep_invariant)
  rintro first rfl
  exact heapInvariant_initial

/-! ## Isolation -/

structure Isolated (state : HeapState) : Prop where
  disjoint : state.live.Pairwise fun block other => ∀ p, block.Owns p → ¬ other.Owns p
  nonfree : ∀ block ∈ state.live, ∀ p, block.Owns p → state.heap.pageTable p ≠ 0
  first_is_head : ∀ block ∈ state.live,
    block.Owns block.start ∧ state.heap.pageTable block.start = 1
  kfree_keeps_others : ∀ block ∈ state.live, ∀ other ∈ state.live, other ≠ block →
    ∀ p, other.Owns p →
      (kfree state.heap (some block.ptr)).pageTable p = state.heap.pageTable p

/-- In every state reached by `kmalloc` calls and `kfree` calls on live pointers
the live blocks do not share a page and cannot be damaged by freeing each other. -/
theorem heap_isolated (state : HeapState) (reachable : heapSystem.Reachable state) :
    Isolated state := by
  have invariant := reachable_heapInvariant reachable
  refine ⟨invariant.apart, ?_, ?_, ?_⟩
  · intro block member p owns
    exact (invariant.marked block member).nonzero owns
  · intro block member
    have marked := invariant.marked block member
    exact ⟨marked.owns_start, marked.head⟩
  · intro block member other member' different p owns
    exact (invariant.marked block member).kfree_keeps (invariant.marked other member')
      (invariant.apart_of_ne member member' (Ne.symm different)) owns

/-- Blocks of two pages, one and two; the one in the middle is freed, and the next block goes
behind the others. -/
def heapActions : List HeapAction :=
  [.kmalloc 5000, .kmalloc 100, .kmalloc 4089, .kfree ⟨2, 1⟩, .kmalloc 1]

theorem heapActions_recorded : ∃ trace last,
    heapSystem.record ⟨memoryInit, []⟩ heapActions = some (trace, last) ∧
      last.live = [⟨5, 1⟩, ⟨3, 2⟩, ⟨0, 2⟩] := by
  have runs : (heapSystem.record ⟨memoryInit, []⟩ heapActions).any fun run =>
      decide (run.2.live = [⟨5, 1⟩, ⟨3, 2⟩, ⟨0, 2⟩]) := by
    decide +kernel
  obtain ⟨⟨trace, last⟩, recorded, live⟩ := (Option.any_eq_true ..).mp runs
  exact ⟨trace, last, recorded, of_decide_eq_true live⟩

theorem heap_isolated_after_kfree : ∃ trace last,
    heapSystem.record ⟨memoryInit, []⟩ heapActions = some (trace, last) ∧
      last.live = [⟨5, 1⟩, ⟨3, 2⟩, ⟨0, 2⟩] ∧ Isolated last := by
  obtain ⟨trace, last, recorded, live⟩ := heapActions_recorded
  exact ⟨trace, last, recorded, live,
    heap_isolated last ⟨_, trace, rfl, System.trace_of_record recorded⟩⟩

end ApnaOS.Memory
