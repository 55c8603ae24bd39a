import ApnaOS.Lib.Writes
import ApnaOS.Memory.Isolation
import ApnaOS.Memory.Sizes

/-!
# The bytes of the heap

`kmalloc` stores a header in front of what it gives out and `kfree` stores into that header.
The owners of live blocks store into what they were given.  None of these stores is seen in
another block, and the headers last as long as the blocks.
-/

set_option autoImplicit false

namespace ApnaOS.Memory

open ApnaOS.Lib
open Function (update update_self update_of_ne)

abbrev Byte := UInt8

/-- A live pointer: the block it is in and the size that was asked for. -/
structure Allocation where
  block : Block
  size : UInt32
  deriving DecidableEq

namespace Allocation

def header (allocation : Allocation) : Nat := allocation.block.start * pageSize

def ptr (allocation : Allocation) : Nat := allocation.block.ptr

/-- The block is inside the array and has room for the size that was asked for. -/
def Sound (allocation : Allocation) : Prop :=
  allocation.block.Inside ∧
    allocation.size.toNat + blockHeaderSize ≤ allocation.block.pages * pageSize

instance (allocation : Allocation) : Decidable allocation.Sound :=
  inferInstanceAs (Decidable (_ + _ ≤ _ ∧ _ ≤ _))

/-- The bytes of the pages of the block. -/
def Covers (allocation : Allocation) (address : Nat) : Prop :=
  allocation.header ≤ address ∧ address < allocation.header + allocation.block.pages * pageSize

end Allocation

/-- The heap, the bytes of `kernel_memory` and the live pointers. -/
structure MemoryState where
  heap : Heap
  bytes : Nat → Byte
  live : List Allocation

/-! ## The stores -/

/-- The `k`-th byte of a 32-bit word. -/
def byteOfWord (word : UInt32) (k : Nat) : Byte := UInt8.ofNat (word.toNat >>> (8 * k))

/-- `block->size = size; block->is_free = 0;` -/
def kmallocWrites (header : Nat) (size : UInt32) : Writes Byte :=
  Writes.span header (byteOfWord size) 4 ++ [(header + 4, 0)]

/-- `block->is_free = 1;` -/
def kfreeWrites (ptr : Nat) : Writes Byte := [(ptr - blockHeaderSize + 4, 1)]

inductive MemoryAction where
  | kmalloc (size : UInt32)
  | kfree (allocation : Allocation)
  | store (allocation : Allocation) (offset : Nat) (value : Byte)

def memoryWrites (state : MemoryState) : MemoryAction → Writes Byte
  | .kmalloc size =>
      match (allocatePages state.heap (pagesFor size)).1 with
      | some mem => kmallocWrites mem size
      | none => []
  | .kfree allocation => kfreeWrites allocation.ptr
  | .store allocation offset value => [(allocation.ptr + offset, value)]

/-- The owner of a live pointer stores below the size that it has asked for. -/
def memoryStep (state : MemoryState) (action : MemoryAction) : Option MemoryState :=
  let bytes := Writes.apply state.bytes (memoryWrites state action)
  match action with
  | .kmalloc size =>
      match kmalloc state.heap size with
      | (some ptr, heap) =>
          some ⟨heap, bytes, ⟨⟨ptr / pageSize, pagesFor size⟩, size⟩ :: state.live⟩
      | (none, heap) => some ⟨heap, bytes, state.live⟩
  | .kfree allocation =>
      if allocation ∈ state.live then
        some ⟨kfree state.heap (some allocation.ptr), bytes, state.live.erase allocation⟩
      else none
  | .store allocation offset _ =>
      if allocation ∈ state.live ∧ offset < allocation.size.toNat then
        some ⟨state.heap, bytes, state.live⟩
      else none

/-- `memory_init`, and then every sequence of calls on live pointers and of stores. -/
def memorySystem : System MemoryState MemoryAction where
  initial state := state = ⟨memoryInit, fun _ => 0, []⟩
  step := memoryStep

/-! ## What the owners see -/

def MemoryState.load (state : MemoryState) (allocation : Allocation) (offset : Nat) : Byte :=
  state.bytes (allocation.ptr + offset)

def MemoryState.Headed (state : MemoryState) (allocation : Allocation) : Prop :=
  (∀ k, k < 4 → state.bytes (allocation.header + k) = byteOfWord allocation.size k) ∧
    state.bytes (allocation.header + 4) = 0

/-- The byte after a step: the owner's store, or what it was. -/
def MemoryAction.leaves (action : MemoryAction) (allocation : Allocation) (offset : Nat)
    (value : Byte) : Byte :=
  match action with
  | .store other at' stored => if other = allocation ∧ at' = offset then stored else value
  | _ => value

/-! ## Blocks as ranges of bytes -/

theorem Allocation.Sound.covers_iff {allocation : Allocation} (sound : allocation.Sound)
    (address : Nat) : allocation.Covers address ↔ allocation.block.Owns (address / pageSize) := by
  rw [sound.1.owns_iff, Allocation.Covers, Allocation.header, ← Nat.add_mul,
    Nat.le_div_iff_mul_le (by decide), Nat.div_lt_iff_lt_mul (by decide)]

theorem Allocation.not_covers {allocation other : Allocation} (sound : allocation.Sound)
    (sound' : other.Sound) (apart : Apart allocation.block other.block) {address : Nat}
    (covers : allocation.Covers address) : ¬ other.Covers address := by
  rw [sound'.covers_iff]
  exact apart _ ((sound.covers_iff address).mp covers)

section Offsets

variable {allocation : Allocation} (sound : allocation.Sound)

include sound

theorem Allocation.covers_header {k : Nat} (below : k < 8) :
    allocation.Covers (allocation.header + k) := by
  have room := sound.2
  unfold blockHeaderSize at room
  exact ⟨Nat.le_add_right _ _, by omega⟩

theorem Allocation.covers_payload {offset : Nat} (below : offset < allocation.size.toNat) :
    allocation.Covers (allocation.ptr + offset) := by
  have room := sound.2
  have start : allocation.ptr = allocation.header + 8 := rfl
  unfold blockHeaderSize at room
  constructor
  · omega
  · omega

theorem Allocation.covered_lt {address : Nat} (covers : allocation.Covers address) :
    address < kernelMemorySize := by
  have fits : allocation.block.start + allocation.block.pages ≤ numPages := sound.1
  have last := Nat.mul_le_mul_right pageSize fits
  have whole : numPages * pageSize = kernelMemorySize := rfl
  have upper := covers.2
  rw [Allocation.header, ← Nat.add_mul] at upper
  omega

end Offsets

structure StoresIn (allocation : Allocation) (before after : MemoryState) (writes : Writes Byte) :
    Prop where
  bytes : after.bytes = Writes.apply before.bytes writes
  sound : allocation.Sound
  covered : ∀ write ∈ writes, allocation.Covers write.1

section Frame

variable {allocation other : Allocation} {before after : MemoryState} {writes : Writes Byte}

theorem StoresIn.inside (stores : StoresIn allocation before after writes) :
    Writes.Within kernelMemorySize writes :=
  fun write member => Allocation.covered_lt stores.sound (stores.covered write member)

theorem StoresIn.frame (stores : StoresIn allocation before after writes) (sound : other.Sound)
    (apart : Apart allocation.block other.block) {address : Nat} (covers : other.Covers address) :
    after.bytes address = before.bytes address := by
  rw [stores.bytes]
  apply Writes.apply_untouched
  intro write member same
  exact Allocation.not_covers stores.sound sound apart (stores.covered write member)
    (same ▸ covers)

theorem StoresIn.headed (stores : StoresIn allocation before after writes) (sound : other.Sound)
    (apart : Apart allocation.block other.block) (headed : before.Headed other) :
    after.Headed other := by
  constructor
  · intro k below
    rw [stores.frame sound apart (Allocation.covers_header sound (by omega))]
    exact headed.1 k below
  · rw [stores.frame sound apart (Allocation.covers_header sound (by omega))]
    exact headed.2

theorem StoresIn.load (stores : StoresIn allocation before after writes) (sound : other.Sound)
    (apart : Apart allocation.block other.block) {offset : Nat}
    (below : offset < other.size.toNat) : after.load other offset = before.load other offset :=
  stores.frame sound apart (Allocation.covers_payload sound below)

end Frame

/-! ## Steps -/

structure MemoryInvariant (state : MemoryState) : Prop where
  heap : HeapInvariant ⟨state.heap, state.live.map Allocation.block⟩
  headed : ∀ allocation ∈ state.live, state.Headed allocation

theorem memoryInvariant_initial : MemoryInvariant ⟨memoryInit, fun _ => 0, []⟩ where
  heap := heapInvariant_initial
  headed := fun _ member => absurd member List.not_mem_nil

/-- What the owners of the live pointers rely on in a step. -/
structure Respects (before : MemoryState) (action : MemoryAction) (after : MemoryState) : Prop where
  headed : ∀ allocation ∈ after.live, after.Headed allocation
  inside : Writes.Within kernelMemorySize (memoryWrites before action)
  contents : ∀ allocation ∈ before.live, allocation ∈ after.live →
    ∀ offset, offset < allocation.size.toNat →
      after.load allocation offset = action.leaves allocation offset (before.load allocation offset)

def MemoryState.Sound (state : MemoryState) : Prop := ∀ allocation ∈ state.live, allocation.Sound

instance (state : MemoryState) : Decidable state.Sound :=
  inferInstanceAs (Decidable (∀ allocation ∈ state.live, _))

theorem MemoryInvariant.apart {state : MemoryState} (invariant : MemoryInvariant state)
    {allocation other : Allocation} (member : allocation ∈ state.live)
    (member' : other ∈ state.live) (different : allocation ≠ other) :
    Apart allocation.block other.block := by
  have apart := List.pairwise_map.mp invariant.heap.apart
  have symmetric : Std.Symm fun a b : Allocation => Apart a.block b.block :=
    ⟨fun _ _ => Apart.symm⟩
  exact apart.forall member member' different

theorem MemoryInvariant.nodup {state : MemoryState} (invariant : MemoryInvariant state) :
    state.live.Nodup := invariant.heap.nodup.of_map _

theorem kmallocWrites_headed (bytes : Nat → Byte) (header : Nat) (size : UInt32) :
    (∀ k, k < 4 → Writes.apply bytes (kmallocWrites header size) (header + k) =
        byteOfWord size k) ∧
      Writes.apply bytes (kmallocWrites header size) (header + 4) = 0 := by
  have stored : Writes.apply bytes (kmallocWrites header size) =
      update (update (update (update (update bytes header (byteOfWord size 0)) (header + 1)
        (byteOfWord size 1)) (header + 2) (byteOfWord size 2)) (header + 3) (byteOfWord size 3))
        (header + 4) 0 := rfl
  rw [stored]
  constructor
  · intro k below
    have cases : k = 0 ∨ k = 1 ∨ k = 2 ∨ k = 3 := by omega
    rcases cases with rfl | rfl | rfl | rfl <;> simp
  · exact update_self ..

theorem kmallocWrites_covered {allocation : Allocation} (sound : allocation.Sound) :
    ∀ write ∈ kmallocWrites allocation.header allocation.size, allocation.Covers write.1 := by
  intro write member
  have below : ∃ k, k < 8 ∧ write.1 = allocation.header + k := by
    rcases List.mem_append.mp member with word | flag
    · obtain ⟨k, inRange, rfl⟩ := List.mem_map.mp word
      exact ⟨k, by have := List.mem_range.mp inRange; omega, rfl⟩
    · rw [List.mem_singleton.mp flag]
      exact ⟨4, by omega, rfl⟩
  obtain ⟨k, small, same⟩ := below
  rw [same]
  exact Allocation.covers_header sound small

theorem map_erase_of_nodup {live : List Allocation} (nodup : (live.map Allocation.block).Nodup)
    {allocation : Allocation} (member : allocation ∈ live) :
    (live.erase allocation).map Allocation.block =
      (live.map Allocation.block).erase allocation.block := by
  induction live with
  | nil => cases member
  | cons other rest ih =>
      rw [List.map_cons, List.nodup_cons] at nodup
      by_cases same : other = allocation
      · rw [same, List.erase_cons_head, List.map_cons, List.erase_cons_head]
      · have later : allocation ∈ rest := (List.mem_cons.mp member).resolve_left (Ne.symm same)
        have different : other.block ≠ allocation.block := fun equal =>
          nodup.1 (equal ▸ List.mem_map_of_mem later)
        rw [List.erase_cons_tail (by simpa using same), List.map_cons, List.map_cons,
          List.erase_cons_tail (by simpa using different), ih nodup.2 later]

section Steps

variable {state next : MemoryState}

theorem memoryStep_kmalloc {size : UInt32} (invariant : MemoryInvariant state)
    (sound : state.Sound) (sound' : next.Sound)
    (taken : memoryStep state (.kmalloc size) = some next) :
    MemoryInvariant next ∧ Respects state (.kmalloc size) next := by
  cases scan : findPages state.heap (pagesFor size) numPages 0 0 none with
  | none =>
      have nothing : memoryWrites state (.kmalloc size) = [] := by
        rw [memoryWrites, allocatePages_none scan]
      have same : state = next := by
        simp only [memoryStep, kmalloc, allocatePages_none scan, nothing, Writes.apply_nil,
          Option.some.injEq] at taken
        exact taken
      subst same
      refine ⟨invariant, invariant.headed, ?_, fun _ _ _ _ _ => rfl⟩
      rw [nothing]
      exact Writes.Within.nil _
  | some start =>
      obtain ⟨heap, given, allocated⟩ := allocatePages_some scan
      have stores : memoryWrites state (.kmalloc size) = kmallocWrites (start * pageSize) size := by
        rw [memoryWrites, given]
      have pointer : kmalloc state.heap size = (some (start * pageSize + blockHeaderSize), heap) := by
        rw [kmalloc, given]
      let new : Allocation := ⟨⟨start, pagesFor size⟩, size⟩
      have after : next = ⟨heap, Writes.apply state.bytes (kmallocWrites new.header size),
          new :: state.live⟩ := by
        simp only [memoryStep, pointer, stores, start_of_ptr, Option.some.injEq] at taken
        exact taken.symm
      have live : next.live = new :: state.live := by rw [after]
      have fits : new.Sound := sound' new (live ▸ List.mem_cons_self)
      have storesIn : StoresIn new state next (kmallocWrites new.header size) :=
        ⟨after ▸ rfl, fits, kmallocWrites_covered fits⟩
      have apart : ∀ other ∈ state.live, Apart new.block other.block := fun other member =>
        allocated.apart (invariant.heap.marked _ (List.mem_map_of_mem member))
      have own : next.Headed new := by
        rw [MemoryState.Headed, storesIn.bytes]
        exact kmallocWrites_headed state.bytes new.header size
      have headed : ∀ allocation ∈ next.live, next.Headed allocation := by
        rw [live]
        refine List.forall_mem_cons.mpr ⟨own, ?_⟩
        exact fun other member => storesIn.headed (sound other member) (apart other member)
          (invariant.headed other member)
      have heap' : HeapInvariant ⟨next.heap, next.live.map Allocation.block⟩ := by
        rw [after]
        exact invariant.heap.allocated allocated
      refine ⟨⟨heap', headed⟩, headed, ?_, ?_⟩
      · rw [stores]
        exact storesIn.inside
      · intro other member _ offset below
        exact storesIn.load (sound other member) (apart other member) below

theorem memoryStep_kfree {allocation : Allocation} (invariant : MemoryInvariant state)
    (sound : state.Sound) (taken : memoryStep state (.kfree allocation) = some next) :
    MemoryInvariant next ∧ Respects state (.kfree allocation) next := by
  simp only [memoryStep, Option.ite_none_right_eq_some, Option.some.injEq] at taken
  obtain ⟨live, after⟩ := taken
  have fits := sound allocation live
  have storesIn : StoresIn allocation state next (kfreeWrites allocation.ptr) := by
    refine ⟨after ▸ rfl, fits, ?_⟩
    intro write member
    rw [List.mem_singleton.mp member]
    exact Allocation.covers_header fits (by omega)
  have remains : ∀ other ∈ next.live, other ∈ state.live ∧ other ≠ allocation := by
    intro other member
    rw [← after] at member
    obtain ⟨different, member'⟩ := invariant.nodup.mem_erase_iff.mp member
    exact ⟨member', different⟩
  have apart : ∀ other ∈ next.live, Apart allocation.block other.block := fun other member =>
    invariant.apart live (remains other member).1 (remains other member).2.symm
  have headed : ∀ other ∈ next.live, next.Headed other := fun other member =>
    storesIn.headed (sound other (remains other member).1) (apart other member)
      (invariant.headed other (remains other member).1)
  have heap : HeapInvariant ⟨next.heap, next.live.map Allocation.block⟩ := by
    have freed := invariant.heap.freed (List.mem_map_of_mem live)
    rw [← map_erase_of_nodup invariant.heap.nodup live] at freed
    rw [← after]
    exact freed
  refine ⟨⟨heap, headed⟩, headed, storesIn.inside, ?_⟩
  intro other _ member offset below
  exact storesIn.load (sound other (remains other member).1) (apart other member) below

theorem memoryStep_store {allocation : Allocation} {offset : Nat} {value : Byte}
    (invariant : MemoryInvariant state) (sound : state.Sound)
    (taken : memoryStep state (.store allocation offset value) = some next) :
    MemoryInvariant next ∧ Respects state (.store allocation offset value) next := by
  simp only [memoryStep, Option.ite_none_right_eq_some, Option.some.injEq] at taken
  obtain ⟨⟨live, below⟩, after⟩ := taken
  have fits := sound allocation live
  have storesIn : StoresIn allocation state next [(allocation.ptr + offset, value)] := by
    refine ⟨after ▸ rfl, fits, ?_⟩
    intro write member
    rw [List.mem_singleton.mp member]
    exact Allocation.covers_payload fits below
  have stored : next.bytes = update state.bytes (allocation.ptr + offset) value := storesIn.bytes
  have same : next.live = state.live := after ▸ rfl
  -- The owner's own header is in front of the pointer.
  have own : next.Headed allocation := by
    have header : allocation.ptr = allocation.header + 8 := rfl
    obtain ⟨word, flag⟩ := invariant.headed allocation live
    constructor
    · intro k small
      rw [stored, update_of_ne (by omega)]
      exact word k small
    · rw [stored, update_of_ne (by omega)]
      exact flag
  have headed : ∀ other ∈ next.live, next.Headed other := by
    intro other member
    rw [same] at member
    by_cases mine : other = allocation
    · rw [mine]
      exact own
    · exact storesIn.headed (sound other member) (invariant.apart live member (Ne.symm mine))
        (invariant.headed other member)
  have heap : HeapInvariant ⟨next.heap, next.live.map Allocation.block⟩ := by
    rw [← after]
    exact invariant.heap
  refine ⟨⟨heap, headed⟩, headed, storesIn.inside, ?_⟩
  intro other member _ at' small
  rw [MemoryAction.leaves]
  by_cases mine : other = allocation
  · subst mine
    rw [MemoryState.load, stored]
    by_cases here : at' = offset
    · rw [here, update_self, if_pos ⟨rfl, rfl⟩]
    · rw [update_of_ne (by omega), if_neg (fun both => here both.2.symm)]
      rfl
  · rw [if_neg (fun both => mine both.1.symm)]
    exact storesIn.load (sound other member) (invariant.apart live member (Ne.symm mine)) small

end Steps

theorem memoryStep_respects {state next : MemoryState} {action : MemoryAction}
    (invariant : MemoryInvariant state) (sound : state.Sound) (sound' : next.Sound)
    (taken : memoryStep state action = some next) :
    MemoryInvariant next ∧ Respects state action next := by
  cases action with
  | kmalloc size => exact memoryStep_kmalloc invariant sound sound' taken
  | kfree allocation => exact memoryStep_kfree invariant sound taken
  | store allocation offset value => exact memoryStep_store invariant sound taken

theorem memory_run {first last : MemoryState}
    {trace : List (Transition MemoryState MemoryAction)}
    (run : memorySystem.Trace first trace last) (invariant : MemoryInvariant first)
    (sound : first.Sound) (allSound : ∀ transition ∈ trace, transition.after.Sound) :
    ∀ transition ∈ trace, Respects transition.before transition.action transition.after := by
  induction run with
  | nil state => exact fun transition member => absurd member List.not_mem_nil
  | cons taken _ ih =>
      obtain ⟨here, later⟩ := List.forall_mem_cons.mp allSound
      obtain ⟨invariant', respects⟩ := memoryStep_respects invariant sound here taken
      exact List.forall_mem_cons.mpr ⟨respects, ih invariant' here later⟩

/-- In every run of `kmalloc`, `kfree` and stores by the owners in which the blocks given out are
inside the array and large enough, each store is inside the array, the headers of the live blocks
say what was asked for, and the bytes of a live block are changed by its owner alone. -/
theorem heap_contents {first last : MemoryState}
    {trace : List (Transition MemoryState MemoryAction)} (initial : memorySystem.initial first)
    (run : memorySystem.Trace first trace last)
    (sound : ∀ transition ∈ trace, transition.after.Sound) :
    ∀ transition ∈ trace, Respects transition.before transition.action transition.after := by
  have started : first = ⟨memoryInit, fun _ => 0, []⟩ := initial
  subst started
  exact memory_run run memoryInvariant_initial (fun _ member => absurd member List.not_mem_nil) sound

/-- Two blocks, a store into the last byte of the first, and the second is freed. -/
def twoBlocks : List MemoryAction :=
  [.kmalloc 5000, .kmalloc 100, .store ⟨⟨0, 2⟩, 5000⟩ 4999 7, .kfree ⟨⟨2, 1⟩, 100⟩]

theorem heap_contents_of_two : ∃ trace last,
    memorySystem.record ⟨memoryInit, fun _ => 0, []⟩ twoBlocks = some (trace, last) ∧
    ∀ transition ∈ trace,
      Respects transition.before transition.action transition.after := by
  have runs : (memorySystem.record ⟨memoryInit, fun _ => 0, []⟩ twoBlocks).any fun run =>
      decide (∀ transition ∈ run.1, transition.after.Sound) := by
    decide +kernel
  obtain ⟨⟨trace, last⟩, recorded, checked⟩ := (Option.any_eq_true ..).mp runs
  exact ⟨trace, last, recorded, heap_contents rfl (System.trace_of_record recorded)
    (of_decide_eq_true checked)⟩

end ApnaOS.Memory
