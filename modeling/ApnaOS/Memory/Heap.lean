import Mathlib.Logic.Function.Basic
import ApnaOS.Lib.Transition

/-!
# The page allocator

`memory.c`: a table with one mark per page, 0 free, 1 head of an allocation and
2 tail part, and the page the next scan starts at.  Pointers are offsets into
`kernel_memory`.  The bytes of `kernel_memory`, block headers included, are left
out: no function of the allocator reads them.
-/

set_option autoImplicit false

namespace ApnaOS.Memory

open ApnaOS.Lib
open Function (update)

def kernelMemorySize : Nat := 1024 * 1024 * 16
def pageSize : Nat := 4096
def numPages : Nat := kernelMemorySize / pageSize

/-- `sizeof(memory_block_t)`: a 32-bit size and a byte, padded. -/
def blockHeaderSize : Nat := 8

abbrev PageTable := Nat → Nat

structure Heap where
  pageTable : PageTable
  lastPageIndex : Nat

def memoryInit : Heap where
  pageTable := fun _ => 0
  lastPageIndex := 0

/-- The scan of `allocate_pages` over `remaining` further values of `i`. -/
def findPages (heap : Heap) (wanted : Nat) :
    (remaining i count : Nat) → (foundStart : Option Nat) → Option Nat
  | 0, _, _, _ => none
  | remaining + 1, i, count, foundStart =>
      let index := (heap.lastPageIndex + i) % numPages
      if heap.pageTable index = 0 then
        let foundStart := foundStart.getD index
        if count + 1 = wanted then some foundStart
        else findPages heap wanted remaining (i + 1) (count + 1) (some foundStart)
      else findPages heap wanted remaining (i + 1) 0 none

/-- The loop that marks tail pages, indexed modulo `NUM_PAGES`. -/
def markTail (foundStart : Nat) : List Nat → PageTable → PageTable
  | [], pageTable => pageTable
  | j :: rest, pageTable =>
      markTail foundStart rest (update pageTable ((foundStart + j) % numPages) 2)

def allocatePages (heap : Heap) (wanted : Nat) : Option Nat × Heap :=
  match findPages heap wanted numPages 0 0 none with
  | some foundStart =>
      let pageTable := update heap.pageTable foundStart 1
      let pageTable := markTail foundStart (List.range' 1 (wanted - 1)) pageTable
      (some (foundStart * pageSize),
        { pageTable := pageTable, lastPageIndex := (foundStart + wanted) % numPages })
  | none => (none, heap)

/-- The number of pages `kmalloc` asks for, in 32-bit arithmetic. -/
def pagesFor (size : UInt32) : Nat :=
  let totalSize := size + 8
  ((totalSize + 4096 - 1) / 4096).toNat

def kmalloc (heap : Heap) (size : UInt32) : Option Nat × Heap :=
  match allocatePages heap (pagesFor size) with
  | (some mem, heap) => (some (mem + blockHeaderSize), heap)
  | (none, heap) => (none, heap)

/-- The loop of `kfree`: it stops at the end of the array and at the first page
that is not a tail part. -/
def freeTail : (fuel i : Nat) → PageTable → PageTable
  | 0, _, pageTable => pageTable
  | fuel + 1, i, pageTable =>
      if i < numPages ∧ pageTable i = 2 then freeTail fuel (i + 1) (update pageTable i 0)
      else pageTable

def kfree (heap : Heap) : Option Nat → Heap
  | none => heap
  | some ptr =>
      let startPage := (ptr - blockHeaderSize) / pageSize
      if heap.pageTable startPage = 1 then
        let pageTable := update heap.pageTable startPage 0
        { heap with pageTable := freeTail numPages (startPage + 1) pageTable }
      else heap

/-! ## Runs -/

/-- What a caller of `kmalloc` was given: the first page and the number of pages
that were marked. -/
structure Block where
  start : Nat
  pages : Nat
  deriving DecidableEq

def Block.ptr (block : Block) : Nat := block.start * pageSize + blockHeaderSize

/-- Page `p` is one of those the block was given. -/
def Block.Owns (block : Block) (p : Nat) : Prop :=
  ∃ j, j < block.pages ∧ (block.start + j) % numPages = p

def Block.Inside (block : Block) : Prop := block.start + block.pages ≤ numPages

structure HeapState where
  heap : Heap
  live : List Block

inductive HeapAction where
  | kmalloc (size : UInt32)
  | kfree (block : Block)

def heapStep (state : HeapState) : HeapAction → Option HeapState
  | .kmalloc size =>
      match kmalloc state.heap size with
      | (some ptr, heap) =>
          some { heap := heap, live := ⟨ptr / pageSize, pagesFor size⟩ :: state.live }
      | (none, heap) => some { heap := heap, live := state.live }
  | .kfree block =>
      if block ∈ state.live then
        some { heap := kfree state.heap (some block.ptr), live := state.live.erase block }
      else none

/-- Every sequence of `kmalloc` calls and `kfree` calls on live pointers. -/
def heapSystem : System HeapState HeapAction where
  initial state := state = ⟨memoryInit, []⟩
  step := heapStep

end ApnaOS.Memory
