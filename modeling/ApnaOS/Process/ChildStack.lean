import ApnaOS.Process.Creation
import ApnaOS.Process.Scheduler

/-!
# The stack of a forked child

`fork_syscall` copies the stack of the parent byte by byte and gives the child a pointer
at the same offset.  The frame pointers saved in the copied frames are addresses, and
they still lead into the stack of the parent.
-/

set_option autoImplicit false

namespace ApnaOS.Process

open ApnaOS.Lib
open ApnaOS.Memory (Heap Block Apart Marked numPages)
open Function (update_self update_of_ne)

variable {A : Type}

/-! ## Copying -/

theorem copyMemory_outside {dest src size a : Nat} (memory : Nat → UInt8)
    (outside : a < dest ∨ dest + size ≤ a) : copyMemory dest src size memory a = memory a := by
  induction size with
  | zero => rfl
  | succ size ih =>
      rw [copyMemory, update_of_ne (by omega)]
      exact ih (by omega)

theorem copyMemory_inside {dest src size i : Nat} (memory : Nat → UInt8)
    (apart : src + size ≤ dest ∨ dest + size ≤ src) (inside : i < size) :
    copyMemory dest src size memory (dest + i) = memory (src + i) := by
  induction size with
  | zero => exact absurd inside (Nat.not_lt_zero i)
  | succ size ih =>
      rw [copyMemory]
      by_cases last : i = size
      · rw [last, update_self]
        exact copyMemory_outside memory (by omega)
      · rw [update_of_ne (by omega)]
        exact ih (by omega) (by omega)

/-! ## Stacks are apart -/

theorem pages_of_stack : Memory.pagesFor 4096 = 2 := by decide

theorem stacks_apart {block other : Block} (apart : Apart block other) (two : block.pages = 2)
    (two' : other.pages = 2) (bound : block.start < numPages) (bound' : other.start < numPages) :
    block.ptr + 4096 ≤ other.ptr ∨ other.ptr + 4096 ≤ block.ptr := by
  have owns : ∀ j, j < 2 → block.start + j < numPages → block.Owns (block.start + j) :=
    fun j inside range => ⟨j, two ▸ inside, Nat.mod_eq_of_lt range⟩
  have owns' : ∀ j, j < 2 → other.start + j < numPages → other.Owns (other.start + j) :=
    fun j inside range => ⟨j, two' ▸ inside, Nat.mod_eq_of_lt range⟩
  have different : block.start ≠ other.start := by
    intro same
    exact apart _ (owns 0 (by decide) bound) (same ▸ owns' 0 (by decide) bound')
  have notBehind : block.start + 1 ≠ other.start := by
    intro same
    exact apart _ (owns 1 (by decide) (same ▸ bound')) (same ▸ owns' 0 (by decide) bound')
  have notBefore : other.start + 1 ≠ block.start := by
    intro same
    exact apart _ (owns 0 (by decide) bound) (same ▸ owns' 1 (by decide) (same ▸ bound))
  simp only [Block.ptr, Memory.pageSize, Memory.blockHeaderSize]
  omega

/-! ## What a fork copies -/

/-- The user stack that `create_process` or `fork_syscall` takes. -/
def Kernel.nextStack (kernel : Kernel A) (alloc : Allocator A) : Option Addr :=
  (alloc.kmalloc (alloc.kmalloc kernel.allocator pcbSize).2 4096).1

/-- The stack of a new child, two free pages, and what the fork wrote there. -/
structure ForkedStack (ebp : Nat) (kernel : Kernel Heap) (parent child : Addr)
    (kernel' : Kernel Heap) (stack : Block) : Prop where
  next : kernel.nextStack heapAllocator.toAllocator = some stack.ptr
  pages : stack.pages = 2
  start_lt : stack.start < numPages
  wasFree : ∀ p, stack.Owns p → kernel.allocator.pageTable p = 0
  userStackPtr : (kernel'.pcb child).userStackPtr =
    childStackPtr stack.ptr ebp (kernel.pcb parent).userStackBase
  userStackBase : (kernel'.pcb child).userStackBase = (kernel.pcb child).userStackBase
  bytes : ∀ i, i < 4096 → kernel'.memory (stack.ptr + i) =
    copyMemory stack.ptr (kernel.pcb parent).userStackBase 4096 kernel.memory (stack.ptr + i)

theorem fork_stack {kernel kernel' : Kernel Heap} {fuel ebp : Nat} {parent child : Addr}
    (live : HeapLive kernel.allocator parent)
    (ran : forkSyscall heapAllocator.toAllocator fuel ebp kernel parent =
      some (some child, kernel')) :
    ∃ stack, ForkedStack ebp kernel parent child kernel' stack := by
  have other : (Memory.kmalloc kernel.allocator pcbSize).1 ≠ some parent :=
    fun given => heapAllocator.fresh (Prod.ext given rfl) live
  rcases forkSyscall_cases ran other with ⟨clash, _⟩ | ⟨c, base, table, kernelStack, same, forks⟩
  · cases clash
  cases same
  obtain ⟨a₁, first, later⟩ := kmalloc_of_grants (congrArg Prod.fst forks.granted)
  obtain ⟨a₂, second, _⟩ := kmalloc_of_grants later
  obtain ⟨pcb, stack, others, rfl, rfl, namedTable, pages, takes⟩ := forks.blocks
  obtain ⟨mapped, last, rfl, tableAt, _⟩ := List.map_eq_append_iff.mp namedTable
  have two : ∀ block ∈ stack :: mapped, block.pages = 2 := by
    have requests : forkRequests kernel parent =
        pcbSize :: 4096 :: (tableRequests (kernel.pcb parent).cr3 ++ [kernelStackSize]) := rfl
    rw [requests, List.map_cons, List.map_cons (f := Memory.pagesFor), List.take_succ_cons] at pages
    intro block member
    have among : block.pages ∈ (stack :: (mapped ++ last)).map Block.pages := by
      apply List.mem_map_of_mem
      rw [← List.cons_append]
      exact List.mem_append_left last member
    rw [(List.cons.inj pages).2] at among
    obtain ⟨size, asked, same⟩ := List.mem_map.mp (List.mem_of_mem_take among)
    have stackSize : size = 4096 := by
      rcases List.mem_cons.mp asked with rfl | asked
      · rfl
      · rcases List.mem_append.mp asked with forTable | forKernel
        · rw [tableRequests] at forTable
          split at forTable
          · exact List.mem_singleton.mp forTable
          · cases forTable
        · exact List.mem_singleton.mp forKernel
    rw [← same, stackSize, pages_of_stack]
  have stackTaken : stack ∈ pcb :: stack :: (mapped ++ last) := by simp
  have marked := takes.marked stack stackTaken
  refine ⟨stack, ?_, two stack List.mem_cons_self, marked.start_lt, takes.wasFree stack stackTaken,
    forks.userStackPtr, forks.userStackBase, ?_⟩
  · rw [Kernel.nextStack, first]
    exact congrArg Prod.fst second
  · intro i inside
    rw [forks.memory, forkMemory]
    cases table with
    | none => rfl
    | some t =>
        obtain ⟨tableBlock, none_left, rfl, rfl, empty⟩ := List.map_eq_cons_iff.mp tableAt
        have tableTaken : tableBlock ∈ pcb :: stack :: (tableBlock :: none_left ++ last) := by simp
        have apart : Apart stack tableBlock :=
          (List.pairwise_cons.mp (List.pairwise_cons.mp takes.apart).2).1 tableBlock (by simp)
        have regions := stacks_apart apart (two stack List.mem_cons_self) (two tableBlock (by simp))
          marked.start_lt (takes.marked tableBlock tableTaken).start_lt
        exact copyMemory_outside _ (by omega)

/-! ## Frames -/

def loadWord (memory : Nat → UInt8) (address : Nat) : Nat :=
  (memory address).toNat + 256 * ((memory (address + 1)).toNat +
    256 * ((memory (address + 2)).toNat + 256 * (memory (address + 3)).toNat))

/-- The frame pointer saved at a frame; 0 ends the chain. -/
def savedFrame (memory : Nat → UInt8) (frame : Nat) : Option Nat :=
  if loadWord memory frame = 0 then none else some (loadWord memory frame)

def frames (memory : Nat → UInt8) (frame : Nat) : Nat → Option Nat
  | 0 => some frame
  | k + 1 => (frames memory frame k).bind (savedFrame memory)

def FramesInside (memory : Nat → UInt8) (frame base : Nat) : Prop :=
  ∀ k link, frames memory frame k = some link → base ≤ link ∧ link + 4 ≤ base + 4096

/-- The chain from the stack pointer of the child is that of the parent, moved from the
stack at `base` to the one at `base'`.  Its first link is the word that `schedule` pops
into `ebp` when it dispatches the child. -/
def OwnFrames (kernel kernel' : Kernel Heap) (ebp : Nat) (child base base' : Addr) : Prop :=
  ∀ k, frames kernel'.memory (kernel'.pcb child).userStackPtr k =
    (frames kernel.memory ebp k).map fun link => base' + (link - base)

theorem frames_one (memory : Nat → UInt8) (frame : Nat) :
    frames memory frame 1 = savedFrame memory frame := by
  rw [frames, frames, Option.bind_some]

theorem frames_end {memory : Nat → UInt8} {frame : Nat} (last : savedFrame memory frame = none)
    (k : Nat) : frames memory frame (k + 1) = none := by
  induction k with
  | zero => rw [frames_one, last]
  | succ k ih => rw [frames, ih, Option.bind_none]

theorem frames_next {memory : Nat → UInt8} {frame link : Nat}
    (first : savedFrame memory frame = some link) (k : Nat) :
    frames memory frame (k + 1) = frames memory link k := by
  induction k with
  | zero => rw [frames_one, first, frames]
  | succ k ih => rw [frames, ih, frames]

theorem FramesInside.last {memory : Nat → UInt8} {frame base : Nat}
    (last : savedFrame memory frame = none) (lower : base ≤ frame)
    (upper : frame + 4 ≤ base + 4096) : FramesInside memory frame base := by
  intro k link reached
  cases k with
  | zero => exact Option.some.inj reached ▸ ⟨lower, upper⟩
  | succ k => cases (frames_end last k).symm.trans reached

theorem FramesInside.link {memory : Nat → UInt8} {frame next base : Nat}
    (first : savedFrame memory frame = some next) (lower : base ≤ frame)
    (upper : frame + 4 ≤ base + 4096) (rest : FramesInside memory next base) :
    FramesInside memory frame base := by
  intro k link reached
  cases k with
  | zero => exact Option.some.inj reached ▸ ⟨lower, upper⟩
  | succ k => exact rest k link ((frames_next first k).symm.trans reached)

theorem move_eq_iff {range base' base pointer recorded : Nat} (small : base' + 4096 ≤ range)
    (small' : base + 4096 ≤ range) (word : recorded < range) (lower : base ≤ pointer)
    (upper : pointer < base + 4096) :
    (base' + (pointer + range - recorded) % range) % range = base' + (pointer - base) ↔
      recorded = base := by
  have reduced : ∀ total, total < range + range →
      (total % range = total ∧ total < range) ∨ (total % range = total - range ∧ range ≤ total) := by
    intro total less
    by_cases below : total < range
    · exact Or.inl ⟨Nat.mod_eq_of_lt below, below⟩
    · have above := Nat.le_of_not_lt below
      rw [Nat.mod_eq_sub_mod above, Nat.mod_eq_of_lt (by omega)]
      exact Or.inr ⟨rfl, above⟩
  obtain ⟨offset, taken⟩ : ∃ offset, (pointer + range - recorded) % range = offset := ⟨_, rfl⟩
  have first := reduced (pointer + range - recorded) (by omega)
  rw [taken] at first ⊢
  have second := reduced (base' + offset) (by omega)
  omega

theorem savedFrame_congr {memory memory' : Nat → UInt8} {frame frame' : Nat}
    (same : ∀ i, i < 4 → memory' (frame' + i) = memory (frame + i)) :
    savedFrame memory' frame' = savedFrame memory frame := by
  have loaded : loadWord memory' frame' = loadWord memory frame := by
    have here := same 0 (by decide)
    rw [Nat.add_zero, Nat.add_zero] at here
    simp only [loadWord, here, same 1 (by decide), same 2 (by decide), same 3 (by decide)]
  rw [savedFrame, savedFrame, loaded]

theorem stack_bound {stack : Block} (bound : stack.start < numPages) :
    stack.ptr + 4096 ≤ wordRange := by
  have below : stack.ptr + 4096 ≤ 16781312 := by
    rw [Memory.numPages_eq] at bound
    simp only [Block.ptr, Memory.pageSize, Memory.blockHeaderSize]
    omega
  have small : 16781312 ≤ wordRange := by decide
  exact below.trans small

/-- The frames of the child lie in its own stack exactly when the parent has its stack
recorded and there is no frame above that of `fork_syscall`. -/
theorem child_frames_iff (kernel kernel' : Kernel Heap) (fuel ebp : Nat) (parent child : Addr)
    (stack : Block) (live : HeapLive kernel.allocator parent)
    (word : (kernel.pcb parent).userStackBase < wordRange)
    (marked : Marked kernel.allocator stack) (two : stack.pages = 2)
    (inside : FramesInside kernel.memory ebp stack.ptr)
    (ran : forkSyscall heapAllocator.toAllocator fuel ebp kernel parent =
      some (some child, kernel')) :
    ∃ base, kernel.nextStack heapAllocator.toAllocator = some base ∧
      (OwnFrames kernel kernel' ebp child stack.ptr base ↔
        (kernel.pcb parent).userStackBase = stack.ptr ∧ savedFrame kernel.memory ebp = none) := by
  obtain ⟨new, forked⟩ := fork_stack live ran
  refine ⟨new.ptr, forked.next, ?_⟩
  have here := inside 0 ebp rfl
  have apart : Apart stack new := fun p owns owns' => marked.nonzero owns (forked.wasFree p owns')
  have regions := stacks_apart apart two forked.pages marked.start_lt forked.start_lt
  have pointer : (kernel'.pcb child).userStackPtr = new.ptr + (ebp - stack.ptr) ↔
      (kernel.pcb parent).userStackBase = stack.ptr := by
    rw [forked.userStackPtr, childStackPtr]
    exact move_eq_iff (stack_bound forked.start_lt) (stack_bound marked.start_lt) word here.1
      (by omega)
  -- Once the pointer is right the first link is copied as it is.
  have copied : (kernel.pcb parent).userStackBase = stack.ptr →
      savedFrame kernel'.memory (kernel'.pcb child).userStackPtr =
        savedFrame kernel.memory ebp := by
    intro recorded
    refine savedFrame_congr fun i word => ?_
    have offset : (kernel'.pcb child).userStackPtr + i = new.ptr + (ebp - stack.ptr + i) := by
      rw [pointer.mpr recorded, Nat.add_assoc]
    have back : stack.ptr + (ebp - stack.ptr + i) = ebp + i := by omega
    rw [offset, forked.bytes _ (by omega), recorded,
      copyMemory_inside kernel.memory regions (by omega), back]
  constructor
  · intro own
    have first : some (kernel'.pcb child).userStackPtr = some (new.ptr + (ebp - stack.ptr)) := own 0
    have recorded := pointer.mp (Option.some.inj first)
    refine ⟨recorded, ?_⟩
    have second := own 1
    rw [frames_one, frames_one, copied recorded] at second
    cases saved : savedFrame kernel.memory ebp with
    | none => rfl
    | some link =>
        have within := inside 1 link ((frames_one _ _).trans saved)
        rw [saved] at second
        have same : link = new.ptr + (link - stack.ptr) := Option.some.inj second
        omega
  · rintro ⟨recorded, last⟩ k
    cases k with
    | zero => exact congrArg some (pointer.mpr recorded)
    | succ k => rw [frames_end last, frames_end ((copied recorded).trans last), Option.map_none]

def linkedMemory : Nat → UInt8 := storeWord (fun _ => 0) 8188 8196

/-- The first process runs on the stack at 4104 and forks with `linkedMemory` in its stack. -/
theorem exists_fork : ∃ machine : Machine Heap,
    (processSystem heapAllocator.toAllocator).Reachable machine ∧ machine.caller = some 8 ∧
    HeapLive machine.kernel.allocator 8 ∧ (machine.kernel.pcb 8).userStackBase = 4104 ∧
    Marked machine.kernel.allocator ⟨1, 2⟩ ∧
    ∃ kernel',
      forkSyscall heapAllocator.toAllocator 2 8188 { machine.kernel with memory := linkedMemory } 8 =
        some (some 20488, kernel') ∧
      machine.kernel.nextStack heapAllocator.toAllocator = some 24584 ∧
      savedFrame kernel'.memory (kernel'.pcb 20488).userStackPtr = savedFrame linkedMemory 8188 := by
  have runs : ((processSystem heapAllocator.toAllocator).record bootMachine
      [.createProcess 0 1 1 2, .start 0]).any fun run =>
        decide (run.2.caller = some 8 ∧ run.2.kernel.allocator.pageTable 0 = 1 ∧
          (run.2.kernel.pcb 8).userStackBase = 4104 ∧ run.2.kernel.allocator.pageTable 1 = 1 ∧
          run.2.kernel.allocator.pageTable 2 = 2) &&
        (forkSyscall heapAllocator.toAllocator 2 8188
          { run.2.kernel with memory := linkedMemory } 8).any fun forked =>
            decide (forked.1 = some 20488 ∧
              run.2.kernel.nextStack heapAllocator.toAllocator = some 24584 ∧
              savedFrame forked.2.memory (forked.2.pcb 20488).userStackPtr =
                savedFrame linkedMemory 8188) := by
    decide +kernel
  obtain ⟨⟨trace, machine⟩, recorded, checked⟩ := (Option.any_eq_true ..).mp runs
  obtain ⟨state, checked⟩ := Bool.and_eq_true_iff.mp checked
  obtain ⟨caller, live, base, head, tail⟩ := of_decide_eq_true state
  refine ⟨machine, ⟨bootMachine, trace, bootMachine_initial, System.trace_of_record recorded⟩,
    caller, ⟨0, rfl, live⟩, base, ⟨by decide, by decide, by decide, head, ?_⟩, ?_⟩
  · rintro p ⟨j, less, rfl⟩ other
    obtain rfl : j = 1 := by
      have positive : j ≠ 0 := fun zero => other (zero ▸ rfl)
      simp only at less
      omega
    exact tail
  · obtain ⟨⟨given, kernel'⟩, ran, result⟩ := (Option.any_eq_true ..).mp checked
    obtain ⟨rfl, next, first⟩ := of_decide_eq_true result
    exact ⟨kernel', ran, next, first⟩

theorem framesInside_link : FramesInside linkedMemory 8188 4104 :=
  FramesInside.link (show savedFrame linkedMemory 8188 = some 8196 by decide) (by decide)
    (by decide) (FramesInside.last (by decide) (by decide) (by decide))

theorem child_frames_iff_linked :
    ∃ kernel kernel' : Kernel Heap, kernel.memory = linkedMemory ∧
      forkSyscall heapAllocator.toAllocator 2 8188 kernel 8 = some (some 20488, kernel') ∧
      ∃ base, kernel.nextStack heapAllocator.toAllocator = some base ∧
        (OwnFrames kernel kernel' 8188 20488 4104 base ↔
          (kernel.pcb 8).userStackBase = 4104 ∧ savedFrame kernel.memory 8188 = none) := by
  obtain ⟨machine, _, _, live, base, marked, kernel', ran, _⟩ := exists_fork
  have word : (machine.kernel.pcb 8).userStackBase < wordRange := by
    rw [base]
    decide
  exact ⟨{ machine.kernel with memory := linkedMemory }, kernel', rfl, ran,
    child_frames_iff { machine.kernel with memory := linkedMemory } kernel' 2 8188 8 20488 ⟨1, 2⟩
      live word marked rfl framesInside_link ran⟩

/-- The first link of the child leads to the second frame of the parent. -/
theorem child_shares_frames : ¬ ∀ (kernel kernel' : Kernel Heap) (fuel ebp : Nat)
    (parent child : Addr) (stack : Block), HeapLive kernel.allocator parent →
      (kernel.pcb parent).userStackBase = stack.ptr → Marked kernel.allocator stack →
      stack.pages = 2 → FramesInside kernel.memory ebp stack.ptr →
      forkSyscall heapAllocator.toAllocator fuel ebp kernel parent = some (some child, kernel') →
      ∃ base, kernel.nextStack heapAllocator.toAllocator = some base ∧
        OwnFrames kernel kernel' ebp child stack.ptr base := by
  intro always
  obtain ⟨machine, _, _, live, recorded, marked, kernel', ran, next, first⟩ := exists_fork
  obtain ⟨base, next', own⟩ := always { machine.kernel with memory := linkedMemory } kernel' 2 8188
    8 20488 ⟨1, 2⟩ live recorded marked rfl framesInside_link ran
  have named : 24584 = base := Option.some.inj (next.symm.trans next')
  have saved : savedFrame linkedMemory 8188 = some 8196 := by decide
  have second := own 1
  rw [frames_one, frames_one, first, saved, ← named] at second
  exact absurd (Option.some.inj second) (by decide)

end ApnaOS.Process
