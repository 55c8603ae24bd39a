import ApnaOS.Memory.Isolation
import ApnaOS.Process.Kernel

/-!
# Allocators for the process system

What the process functions need of `kmalloc` and `kfree`, the heap of `memory.c` as
such an allocator, and the same heap with every address given out once.
-/

set_option autoImplicit false

namespace ApnaOS.Process

open ApnaOS.Memory (Heap Block)

/-- An allocator that gives out no address that is in use. -/
structure IsolatingAllocator (A : Type) extends Allocator A where
  live : A → Addr → Prop
  fresh : ∀ {a a' : A} {size : UInt32} {p : Addr}, kmalloc a size = (some p, a') → ¬ live a p
  gives : ∀ {a a' : A} {size : UInt32} {p : Addr}, kmalloc a size = (some p, a') → live a' p
  keeps : ∀ {a a' : A} {size : UInt32} {r : Option Addr} {q : Addr},
    kmalloc a size = (r, a') → live a q → live a' q
  frees : ∀ {a : A} {p q : Addr}, live a p → q ≠ p → live a q → live (kfree a (some p)) q

structure OnceAllocator (A : Type) extends IsolatingAllocator A where
  never : ∀ {a : A} {p : Option Addr} {q : Addr}, live a q → live (kfree a p) q

def Grows {A : Type} (alloc : IsolatingAllocator A) (a a' : A) : Prop :=
  ∀ q, alloc.live a q → alloc.live a' q

/-! ## The heap -/

def pagePtr (start : Nat) : Addr := start * Memory.pageSize + Memory.blockHeaderSize

theorem pagePtr_injective {start start' : Nat} (same : pagePtr start = pagePtr start') :
    start = start' := by
  simp only [pagePtr, Memory.pageSize, Memory.blockHeaderSize] at same
  exact Nat.eq_of_mul_eq_mul_right (by decide) (Nat.add_right_cancel same)

def HeapLive (heap : Heap) (p : Addr) : Prop :=
  ∃ start, p = pagePtr start ∧ heap.pageTable start = 1

theorem kmalloc_cases {heap after : Heap} {size : UInt32} {r : Option Addr}
    (given : Memory.kmalloc heap size = (r, after)) :
    (r = none ∧ after = heap) ∨ ∃ start, r = some (pagePtr start) ∧
      Memory.Allocated heap ⟨start, Memory.pagesFor size⟩ after := by
  cases found : Memory.findPages heap (Memory.pagesFor size) Memory.numPages 0 0 none with
  | none =>
      rw [Memory.kmalloc, Memory.allocatePages_none found, Prod.mk.injEq] at given
      exact Or.inl ⟨given.1.symm, given.2.symm⟩
  | some start =>
      obtain ⟨after', ran, allocated⟩ := Memory.allocatePages_some found
      rw [Memory.kmalloc, ran, Prod.mk.injEq] at given
      rw [given.2] at allocated
      exact Or.inr ⟨start, given.1.symm, allocated⟩

theorem heap_keeps {heap after : Heap} {size : UInt32} {r : Option Addr} {q : Addr}
    (given : Memory.kmalloc heap size = (r, after)) (used : HeapLive heap q) :
    HeapLive after q := by
  obtain ⟨page, rfl, head⟩ := used
  rcases kmalloc_cases given with ⟨_, same⟩ | ⟨start, _, allocated⟩
  · rw [same]
    exact ⟨page, rfl, head⟩
  · have apart : ¬ Block.Owns ⟨start, Memory.pagesFor size⟩ page := by
      intro owns
      exact absurd (head.symm.trans (allocated.wasFree page owns)) (by decide)
    exact ⟨page, rfl, (allocated.others page apart).trans head⟩

theorem heap_frees {heap : Heap} {p q : Addr} (freed : HeapLive heap p) (different : q ≠ p)
    (used : HeapLive heap q) : HeapLive (Memory.kfree heap (some p)) q := by
  obtain ⟨start, rfl, first⟩ := freed
  obtain ⟨page, rfl, head⟩ := used
  have head' : heap.pageTable (Block.mk start 1).start = 1 := first
  refine ⟨page, rfl, (Memory.kfree_kept head' ?_).trans head⟩
  intro cleared
  rcases cleared with same | ⟨lower, _, all⟩
  · exact different (congrArg pagePtr same)
  · exact absurd (head.symm.trans (all page lower (Nat.le_refl page))) (by decide)

def heapAllocator : IsolatingAllocator Heap where
  kmalloc := Memory.kmalloc
  kfree := Memory.kfree
  live := HeapLive
  fresh := by
    intro heap after size p given used
    obtain ⟨page, here, head⟩ := used
    rcases kmalloc_cases given with ⟨clash, _⟩ | ⟨start, there, allocated⟩
    · cases clash
    · have same := pagePtr_injective ((Option.some.inj there).symm.trans here)
      have free := allocated.wasFree start
        (Block.owns_start allocated.positive allocated.start_lt)
      rw [same, head] at free
      cases free
  gives := by
    intro heap after size p given
    rcases kmalloc_cases given with ⟨clash, _⟩ | ⟨start, there, allocated⟩
    · cases clash
    · exact ⟨start, Option.some.inj there, allocated.head⟩
  keeps := heap_keeps
  frees := heap_frees

/-- The heap as long as it gives out no address for the second time. -/
def onceKmalloc (state : Heap × List Addr) (size : UInt32) : Option Addr × Heap × List Addr :=
  match Memory.kmalloc state.1 size with
  | (some p, heap) => if p ∈ state.2 then (none, state) else (some p, heap, p :: state.2)
  | (none, _) => (none, state)

theorem onceKmalloc_cases {state after : Heap × List Addr} {size : UInt32} {r : Option Addr}
    (given : onceKmalloc state size = (r, after)) :
    (r = none ∧ after.2 = state.2) ∨ ∃ p, r = some p ∧ p ∉ state.2 ∧ after.2 = p :: state.2 := by
  rw [onceKmalloc] at given
  split at given
  · next p heap _ =>
      by_cases again : p ∈ state.2
      · rw [if_pos again, Prod.mk.injEq] at given
        exact Or.inl ⟨given.1.symm, congrArg Prod.snd given.2.symm⟩
      · rw [if_neg again, Prod.mk.injEq] at given
        exact Or.inr ⟨p, given.1.symm, again, congrArg Prod.snd given.2.symm⟩
  · rw [Prod.mk.injEq] at given
    exact Or.inl ⟨given.1.symm, congrArg Prod.snd given.2.symm⟩

def onceAllocator : OnceAllocator (Heap × List Addr) where
  kmalloc := onceKmalloc
  kfree := fun state p => (Memory.kfree state.1 p, state.2)
  live := fun state p => p ∈ state.2
  fresh := by
    intro state after size p given
    rcases onceKmalloc_cases given with ⟨clash, _⟩ | ⟨q, same, unused, _⟩
    · cases clash
    · rw [Option.some.inj same]
      exact unused
  gives := by
    intro state after size p given
    rcases onceKmalloc_cases given with ⟨clash, _⟩ | ⟨q, same, _, grown⟩
    · cases clash
    · rw [Option.some.inj same, grown]
      exact List.mem_cons_self
  keeps := by
    intro state after size r q given used
    rcases onceKmalloc_cases given with ⟨_, same⟩ | ⟨p, _, _, grown⟩
    · rw [same]
      exact used
    · rw [grown]
      exact List.mem_cons_of_mem p used
  frees := fun _ _ used => used
  never := fun used => used

end ApnaOS.Process
