import Mathlib.Data.List.Perm.Subperm
import ApnaOS.Memory.Conservation
import ApnaOS.Process.Creation
import ApnaOS.Process.Switching

/-!
# The heap under the process system

The process functions are callers of `kmalloc` and `kfree`.  What a run of processes asks of
them is a run of the heap, in which `kfree` is called on live pointers only.  User stacks are
never given back, so the heap bounds how many processes there can ever be.
-/

set_option autoImplicit false

namespace ApnaOS.Process

open ApnaOS.Lib
open ApnaOS.Memory (Heap Block HeapState HeapAction heapSystem memoryInit numPages totalPages)

variable {A : Type}

/-! ## Functions that call neither -/

section Keeps

variable {alloc : Allocator A} {kernel kernel' : Kernel A} {fuel ebp esp : Nat} {p : Addr}

theorem preempt_allocator (ran : preempt fuel kernel = some kernel') :
    kernel'.allocator = kernel.allocator := by
  rw [preempt] at ran
  split at ran
  · rw [← Option.some.inj ran]
  · split at ran
    · exact (enqueueReady_only ran).2.1
    · rw [← Option.some.inj ran]

theorem wakeParent_allocator (ran : wakeParent fuel kernel p = some kernel') :
    kernel'.allocator = kernel.allocator := by
  rw [wakeParent] at ran
  split at ran
  · rw [← Option.some.inj ran]
  · split at ran
    · exact (enqueueReady_only ran).2.1
    · rw [← Option.some.inj ran]

theorem dispatch_allocator (esp : Nat) (kernel : Kernel A) :
    (dispatch esp kernel).2.allocator = kernel.allocator := by
  obtain ⟨⟨next, pcb, queue⟩, dequeued⟩ :
    ∃ r, dequeueProcess kernel.pcb kernel.readyQueue = r := ⟨_, rfl⟩
  cases next with
  | none => simp only [dispatch, dequeued]
  | some next =>
      simp only [dispatch, dequeued]
      split
      · exact Refines.allocator_saveKernelStackPtr _ esp
      · exact Refines.allocator_saveKernelStackPtr _ esp

theorem schedule_allocator {next : Option Addr}
    (ran : schedule fuel esp kernel = some (next, kernel')) :
    kernel'.allocator = kernel.allocator := by
  obtain ⟨middle, preempted, dispatched⟩ := Option.bind_eq_some_iff.mp ran
  have kept := dispatch_allocator esp middle
  rw [Option.some.inj dispatched] at kept
  exact kept.trans (preempt_allocator preempted)

theorem yieldSyscall_allocator {next : Option Addr}
    (ran : yieldSyscall fuel ebp esp kernel p = some (next, kernel')) :
    kernel'.allocator = kernel.allocator := by
  have scheduled := schedule_allocator ran
  exact scheduled

theorem exitSyscall_allocator {status : Int} {next : Option Addr}
    (ran : exitSyscall fuel esp kernel p status = some (next, kernel')) :
    kernel'.allocator = kernel.allocator := by
  obtain ⟨middle, woken, scheduled⟩ := Option.bind_eq_some_iff.mp ran
  have kept := wakeParent_allocator woken
  exact (schedule_allocator scheduled).trans kept

theorem stateExit_allocator {next : Option Addr}
    (ran : stateExit fuel ebp esp kernel p = some (next, kernel')) :
    kernel'.allocator = kernel.allocator := by
  have kept := yieldSyscall_allocator ran
  exact kept

theorem findZombie_allocator {prev current found : Option Addr}
    (ran : findZombie kernel p fuel prev current = some (found, kernel')) :
    kernel'.allocator = kernel.allocator := by
  induction fuel generalizing prev current with
  | zero => cases ran
  | succ fuel ih =>
      cases current with
      | none =>
          simp only [findZombie, Option.some.injEq, Prod.mk.injEq] at ran
          rw [← ran.2]
      | some child =>
          rw [findZombie] at ran
          split at ran
          · simp only [Option.some.injEq, Prod.mk.injEq] at ran
            rw [← ran.2]
            exact Refines.allocator_unlinkAfter kernel prev child
          · exact ih ran

end Keeps

/-! ## What a step asks of the allocator -/

/-- A step asks for memory and makes no process, it makes one with a PCB and a user stack of
its own, or it gives back the PCB of a child that was reaped. -/
inductive Uses (alloc : Allocator A) (machine next : Machine A) : Prop where
  | asks (sizes : List UInt32)
      (allocator : next.kernel.allocator = (grants alloc sizes machine.kernel.allocator).2)
      (born : next.control.born = machine.control.born)
      (reaped : next.control.reaped = machine.control.reaped)
  | makes (p stack : Addr) (others : List Addr) (sizes : List UInt32)
      (granted : grants alloc (pcbSize :: 4096 :: sizes) machine.kernel.allocator =
        (p :: stack :: others, next.kernel.allocator))
      (born : next.control.born = p :: machine.control.born)
      (reaped : next.control.reaped = machine.control.reaped)
  | frees (child : Addr)
      (allocator : next.kernel.allocator = alloc.kfree machine.kernel.allocator (some child))
      (born : next.control.born = machine.control.born)
      (reaped : next.control.reaped = child :: machine.control.reaped)

section Step

variable {alloc : Allocator A} {machine next : Machine A}

theorem Uses.nothing (allocator : next.kernel.allocator = machine.kernel.allocator)
    (born : next.control.born = machine.control.born)
    (reaped : next.control.reaped = machine.control.reaped) : Uses alloc machine next :=
  .asks [] allocator born reaped

theorem waitSyscall_allocator {fuel ebp esp : Nat} {p : Addr} {kernel kernel' : Kernel A}
    {outcome : WaitOutcome}
    (ran : waitSyscall alloc fuel ebp esp kernel p = some (outcome, kernel')) :
    (∃ result child, outcome = .returned result ∧ result.reaped = some child ∧
      kernel'.allocator = alloc.kfree kernel.allocator (some child)) ∨
    ∃ next, outcome = .suspended next ∧ kernel'.allocator = kernel.allocator := by
  obtain ⟨⟨found, kernel₁⟩, searched, ran⟩ := Option.bind_eq_some_iff.mp ran
  have kept : kernel₁.allocator = kernel.allocator := findZombie_allocator searched
  cases found with
  | some child =>
      obtain ⟨rfl, rfl⟩ := Prod.mk.inj (Option.some.inj ran)
      exact Or.inl ⟨_, child, rfl, rfl, congrArg (alloc.kfree · (some child)) kept⟩
  | none =>
      obtain ⟨⟨next, kernel₂⟩, yielded, same⟩ := Option.bind_eq_some_iff.mp ran
      obtain ⟨rfl, rfl⟩ := Prod.mk.inj (Option.some.inj same)
      exact Or.inr ⟨next, rfl, (yieldSyscall_allocator yielded).trans kept⟩

theorem waitResumed_allocator {fuel : Nat} {p : Addr} {kernel kernel' : Kernel A}
    {result : WaitResult} (ran : waitResumed alloc fuel kernel p = some (result, kernel')) :
    (∃ child, result.reaped = some child ∧
      kernel'.allocator = alloc.kfree kernel.allocator (some child)) ∨
    result.reaped = none ∧ kernel'.allocator = kernel.allocator := by
  obtain ⟨⟨found, kernel₁⟩, searched, ran⟩ := Option.bind_eq_some_iff.mp ran
  have kept : kernel₁.allocator = kernel.allocator := findZombie_allocator searched
  cases found with
  | some child =>
      obtain ⟨rfl, rfl⟩ := Prod.mk.inj (Option.some.inj ran)
      exact Or.inl ⟨child, rfl, congrArg (alloc.kfree · (some child)) kept⟩
  | none =>
      obtain ⟨rfl, rfl⟩ := Prod.mk.inj (Option.some.inj ran)
      exact Or.inr ⟨rfl, kept⟩

theorem createProcess_uses {e : Nat} {priority d t : Int}
    (taken : machine.step alloc (.createProcess e priority d t) = some next) :
    Uses alloc machine next := by
  rw [Machine.step] at taken
  split at taken
  · obtain ⟨⟨process, kernel⟩, ran, same⟩ := Option.bind_eq_some_iff.mp taken
    rcases createProcess_cases ran with ⟨rfl, _, allocator⟩ | ⟨p, stack, kernelStack, rfl, creates⟩
    · rw [← Option.some.inj same]
      exact .asks createRequests allocator rfl rfl
    · rw [← Option.some.inj same]
      exact .makes p stack kernelStack.toList [kernelStackSize] creates.granted rfl rfl
  · cases taken

theorem fork_uses {ebp : Nat}
    (other : ∀ p, machine.caller = some p → machine.kernel.nextPcb alloc ≠ some p)
    (taken : machine.step alloc (.fork ebp) = some next) : Uses alloc machine next := by
  obtain ⟨p, caller, taken⟩ := Option.bind_eq_some_iff.mp taken
  obtain ⟨⟨child, kernel⟩, ran, same⟩ := Option.bind_eq_some_iff.mp taken
  rcases forkSyscall_cases ran (other p caller) with
    ⟨rfl, _, allocator⟩ | ⟨c, stack, table, kernelStack, rfl, forks⟩
  · rw [← Option.some.inj same]
    exact .asks (forkRequests machine.kernel p) allocator rfl rfl
  · rw [← Option.some.inj same]
    exact .makes c stack _ _ forks.granted rfl rfl

theorem step_uses {action : Action}
    (other : ∀ p, machine.caller = some p → machine.kernel.nextPcb alloc ≠ some p)
    (taken : machine.step alloc action = some next) : Uses alloc machine next := by
  cases action with
  | createProcess e priority d t => exact createProcess_uses taken
  | fork ebp => exact fork_uses other taken
  | start esp =>
      rw [Machine.step] at taken
      split at taken
      · obtain ⟨⟨given, kernel⟩, ran, same⟩ := Option.bind_eq_some_iff.mp taken
        rw [← Option.some.inj same]
        exact .nothing (schedule_allocator ran) rfl rfl
      · cases taken
  | yield ebp esp =>
      obtain ⟨p, _, taken⟩ := Option.bind_eq_some_iff.mp taken
      obtain ⟨⟨given, kernel⟩, ran, same⟩ := Option.bind_eq_some_iff.mp taken
      rw [← Option.some.inj same]
      exact .nothing (yieldSyscall_allocator ran) rfl rfl
  | exit status esp =>
      obtain ⟨p, _, taken⟩ := Option.bind_eq_some_iff.mp taken
      obtain ⟨⟨given, kernel⟩, ran, same⟩ := Option.bind_eq_some_iff.mp taken
      rw [← Option.some.inj same]
      exact .nothing (exitSyscall_allocator ran) rfl rfl
  | stateExit ebp esp =>
      obtain ⟨p, _, taken⟩ := Option.bind_eq_some_iff.mp taken
      obtain ⟨⟨given, kernel⟩, ran, same⟩ := Option.bind_eq_some_iff.mp taken
      rw [← Option.some.inj same]
      exact .nothing (stateExit_allocator ran) rfl rfl
  | wait ebp esp =>
      obtain ⟨p, _, taken⟩ := Option.bind_eq_some_iff.mp taken
      obtain ⟨⟨outcome, kernel⟩, ran, same⟩ := Option.bind_eq_some_iff.mp taken
      rcases waitSyscall_allocator ran with
        ⟨result, child, rfl, reaped, freed⟩ | ⟨given, rfl, kept⟩
      · rw [← Option.some.inj same]
        exact .frees child freed rfl (List.filterMap_cons_some reaped)
      · rw [← Option.some.inj same]
        exact .nothing kept rfl rfl
  | resume =>
      obtain ⟨p, _, taken⟩ := Option.bind_eq_some_iff.mp taken
      obtain ⟨⟨result, kernel⟩, ran, same⟩ := Option.bind_eq_some_iff.mp taken
      rw [← Option.some.inj same]
      rcases waitResumed_allocator ran with ⟨child, reaped, freed⟩ | ⟨reaped, kept⟩
      · exact .frees child freed rfl (List.filterMap_cons_some reaped)
      · exact .nothing kept rfl (List.filterMap_cons_none reaped)

end Step

/-! ## Calls of a run -/

def freed : HeapAction → Option Nat
  | .kmalloc _ => none
  | .kfree block => some block.ptr

theorem heapStep_granted {heap after : Heap} {size : UInt32} {start : Nat} (live : List Block)
    (given : Memory.kmalloc heap size = (some (pagePtr start), after)) :
    heapSystem.step ⟨heap, live⟩ (.kmalloc size) =
      some ⟨after, ⟨start, Memory.pagesFor size⟩ :: live⟩ := by
  have page : pagePtr start / Memory.pageSize = start := Memory.start_of_ptr start
  simp only [heapSystem, Memory.heapStep, given, page]

theorem heapStep_refused {heap after : Heap} {size : UInt32} (live : List Block)
    (given : Memory.kmalloc heap size = (none, after)) :
    heapSystem.step ⟨heap, live⟩ (.kmalloc size) = some ⟨after, live⟩ := by
  simp only [heapSystem, Memory.heapStep, given]

theorem grants_trace (sizes : List UInt32) (heap : Heap) (live : List Block) :
    ∃ calls, ∃ blocks : List Block, heapSystem.Trace ⟨heap, live⟩ calls
        ⟨(grants heapAllocator.toAllocator sizes heap).2, blocks.reverse ++ live⟩ ∧
      (grants heapAllocator.toAllocator sizes heap).1 = blocks.map Block.ptr ∧
      blocks.map Block.pages = (sizes.map Memory.pagesFor).take blocks.length ∧
      calls.filterMap (fun call => freed call.action) = [] := by
  induction sizes generalizing heap live with
  | nil => exact ⟨[], [], .nil _, rfl, rfl, rfl⟩
  | cons size sizes ih =>
      obtain ⟨⟨result, after⟩, given⟩ : ∃ r, Memory.kmalloc heap size = r := ⟨_, rfl⟩
      rcases kmalloc_cases given with ⟨rfl, _⟩ | ⟨start, rfl, _⟩
      · rw [grants_none sizes given]
        exact ⟨[_], [], .cons (heapStep_refused live given) (.nil _), rfl, rfl, rfl⟩
      · obtain ⟨calls, blocks, run, named, pages, unfreed⟩ :=
          ih after (⟨start, Memory.pagesFor size⟩ :: live)
        rw [grants_some sizes given, named]
        refine ⟨_ :: calls, ⟨start, Memory.pagesFor size⟩ :: blocks,
          .cons (heapStep_granted live given) ?_, rfl, ?_, ?_⟩
        · rw [List.reverse_cons, List.append_assoc, List.singleton_append]
          exact run
        · rw [List.map_cons, pages, List.map_cons, List.length_cons, List.take_succ_cons]
        · rw [List.filterMap_cons_none rfl]
          exact unfreed

/-- The live blocks: one page for the PCB of each process in the table, two pages for the user
stack of each process that there ever was, and others. -/
structure Footprint (machine : Machine Heap) (live pcbs userStacks others : List Block) : Prop where
  live : live.Perm (pcbs ++ (userStacks ++ others))
  born : machine.control.born.Perm (machine.control.reaped ++ pcbs.map Block.ptr)
  onePage : ∀ block ∈ pcbs, block.pages = 1
  twoPages : ∀ block ∈ userStacks, block.pages = 2
  each : userStacks.length = machine.control.born.length

structure Calls (machine next : Machine Heap) (live : List Block)
    (calls : List (Transition HeapState HeapAction)) (live' pcbs userStacks others : List Block) :
    Prop where
  run : heapSystem.Trace ⟨machine.kernel.allocator, live⟩ calls ⟨next.kernel.allocator, live'⟩
  reaped : next.control.reaped =
    (calls.filterMap fun call => freed call.action).reverse ++ machine.control.reaped
  footprint : Footprint next live' pcbs userStacks others

section Heap

variable {machine next last : Machine Heap} {live pcbs userStacks others : List Block}

theorem Footprint.asks (footprint : Footprint machine live pcbs userStacks others)
    (sizes : List UInt32)
    (allocator : next.kernel.allocator =
      (grants heapAllocator.toAllocator sizes machine.kernel.allocator).2)
    (born : next.control.born = machine.control.born)
    (reaped : next.control.reaped = machine.control.reaped) :
    ∃ calls live' others', Calls machine next live calls live' pcbs userStacks others' := by
  obtain ⟨calls, blocks, run, _, _, unfreed⟩ := grants_trace sizes machine.kernel.allocator live
  rw [← allocator] at run
  refine ⟨calls, _, blocks.reverse ++ others, run, ?_, ?_, ?_, footprint.onePage,
    footprint.twoPages, ?_⟩
  · rw [unfreed, reaped]
    rfl
  · apply List.perm_iff_count.mpr
    intro block
    have counted := footprint.live.count_eq block
    simp only [List.count_append] at counted ⊢
    omega
  · rw [born, reaped]
    exact footprint.born
  · rw [born]
    exact footprint.each

theorem Footprint.makes (footprint : Footprint machine live pcbs userStacks others)
    {p stack : Addr} {more : List Addr} {sizes : List UInt32}
    (granted : grants heapAllocator.toAllocator (pcbSize :: 4096 :: sizes)
      machine.kernel.allocator = (p :: stack :: more, next.kernel.allocator))
    (born : next.control.born = p :: machine.control.born)
    (reaped : next.control.reaped = machine.control.reaped) :
    ∃ calls live' pcb user others', Calls machine next live calls live' (pcb :: pcbs)
      (user :: userStacks) others' := by
  obtain ⟨calls, blocks, run, named, pages, unfreed⟩ :=
    grants_trace (pcbSize :: 4096 :: sizes) machine.kernel.allocator live
  rw [granted] at run named
  obtain ⟨pcb, afterPcb, rfl, first, named⟩ := List.map_eq_cons_iff.mp named.symm
  obtain ⟨user, rest, rfl, _, _⟩ := List.map_eq_cons_iff.mp named
  simp only [List.map_cons, List.length_cons, List.take_succ_cons, List.cons.injEq] at pages
  obtain ⟨onePage, twoPages, _⟩ := pages
  refine ⟨calls, _, pcb, user, rest ++ others, run, ?_, ?_, ?_, ?_, ?_, ?_⟩
  · rw [unfreed, reaped]
    rfl
  · apply List.perm_iff_count.mpr
    intro block
    have counted := footprint.live.count_eq block
    simp only [List.count_append, List.count_reverse, List.count_cons] at counted ⊢
    omega
  · rw [born, reaped, List.map_cons, first]
    exact (footprint.born.cons p).trans List.perm_middle.symm
  · exact List.forall_mem_cons.mpr ⟨onePage, footprint.onePage⟩
  · exact List.forall_mem_cons.mpr ⟨twoPages, footprint.twoPages⟩
  · rw [born, List.length_cons, List.length_cons, footprint.each]

theorem Footprint.frees (footprint : Footprint machine live pcbs userStacks others)
    {child : Addr} {table : List Addr}
    (allocator : next.kernel.allocator =
      heapAllocator.kfree machine.kernel.allocator (some child))
    (born : next.control.born = machine.control.born)
    (reaped : next.control.reaped = child :: machine.control.reaped)
    (accounted : next.control.born.Perm (next.control.reaped ++ table)) :
    ∃ calls live' pcbs', Calls machine next live calls live' pcbs' userStacks others := by
  have present : child ∈ pcbs.map Block.ptr := by
    rw [born, reaped, List.cons_append] at accounted
    have same := footprint.born.symm.trans (accounted.trans List.perm_middle.symm)
    exact ((List.perm_append_left_iff _).mp same).mem_iff.mpr List.mem_cons_self
  obtain ⟨block, member, rfl⟩ := List.mem_map.mp present
  have isLive : block ∈ live :=
    footprint.live.mem_iff.mpr (List.mem_append_left _ member)
  have taken : heapSystem.step ⟨machine.kernel.allocator, live⟩ (.kfree block) =
      some ⟨next.kernel.allocator, live.erase block⟩ := by
    rw [allocator]
    exact if_pos isLive
  refine ⟨[_], live.erase block, pcbs.erase block, .cons taken (.nil _), reaped, ?_, ?_, ?_,
    footprint.twoPages, ?_⟩
  · rw [← List.erase_append_left _ member]
    exact footprint.live.erase block
  · rw [born, reaped]
    have moved := (List.perm_cons_erase member).map Block.ptr
    exact footprint.born.trans ((moved.append_left _).trans List.perm_middle)
  · exact fun other remains => footprint.onePage other (List.mem_of_mem_erase remains)
  · rw [born]
    exact footprint.each

theorem Footprint.step {action : Action}
    (footprint : Footprint machine live pcbs userStacks others)
    (invariant : MachineInvariant heapAllocator machine)
    (taken : machine.step heapAllocator.toAllocator action = some next) :
    ∃ calls live' pcbs' userStacks' others',
      Calls machine next live calls live' pcbs' userStacks' others' := by
  obtain ⟨spec, shows, orderly⟩ := id invariant
  obtain ⟨spec', shows', orderly'⟩ := machineInvariant_step heapAllocator invariant taken
  have other : ∀ p, machine.caller = some p →
      machine.kernel.nextPcb heapAllocator.toAllocator ≠ some p := by
    intro p caller
    exact shows.unused (orderly.caller_runs (shows.caller_eq ▸ caller)).1
  rcases step_uses other taken with ⟨sizes, allocator, born, reaped⟩ |
    ⟨p, stack, more, sizes, granted, born, reaped⟩ | ⟨child, allocator, born, reaped⟩
  · obtain ⟨calls, live', others', made⟩ := footprint.asks sizes allocator born reaped
    exact ⟨calls, live', pcbs, userStacks, others', made⟩
  · obtain ⟨calls, live', pcb, user, others', made⟩ := footprint.makes granted born reaped
    exact ⟨calls, live', pcb :: pcbs, user :: userStacks, others', made⟩
  · have accounted := orderly'.accounted.history
    rw [← shows'.control] at accounted
    obtain ⟨calls, live', pcbs', made⟩ := footprint.frees allocator born reaped accounted
    exact ⟨calls, live', pcbs', userStacks, others, made⟩

theorem Footprint.run {trace : List (Transition (Machine Heap) Action)}
    (footprint : Footprint machine live pcbs userStacks others)
    (invariant : MachineInvariant heapAllocator machine)
    (run : (processSystem heapAllocator.toAllocator).Trace machine trace last) :
    ∃ calls live' pcbs' userStacks' others',
      Calls machine last live calls live' pcbs' userStacks' others' := by
  induction run generalizing live pcbs userStacks others with
  | nil machine => exact ⟨[], live, pcbs, userStacks, others, .nil _, rfl, footprint⟩
  | cons taken _ ih =>
      obtain ⟨calls, _, _, _, _, first⟩ := footprint.step invariant taken
      obtain ⟨calls', live', pcbs', userStacks', others', rest⟩ :=
        ih first.footprint (machineInvariant_step heapAllocator invariant taken)
      refine ⟨calls ++ calls', live', pcbs', userStacks', others', first.run.append rest.run, ?_,
        rest.footprint⟩
      rw [rest.reaped, first.reaped, List.filterMap_append, List.reverse_append,
        List.append_assoc]

theorem footprint_initial {first : Machine Heap} (initial : first.Initial) :
    Footprint first [] [] [] [] := by
  refine ⟨List.Perm.refl [], ?_, ?_, ?_, ?_⟩
  · rw [initial.control]
    exact List.Perm.refl []
  · exact fun block member => absurd member List.not_mem_nil
  · exact fun block member => absurd member List.not_mem_nil
  · rw [initial.control]
    rfl

/-- The processes of the table are those with a PCB among the live blocks. -/
theorem Footprint.table (footprint : Footprint machine live pcbs userStacks others)
    (invariant : MachineInvariant heapAllocator machine) {table : List Addr}
    (chain : Chain machine.kernel.pcb.nextInTable machine.kernel.processTableHead table none) :
    (pcbs.map Block.ptr).Perm table := by
  obtain ⟨spec, shows, orderly⟩ := invariant
  have accounted := orderly.accounted.history
  rw [← shows.control, shows.refines.table.unique chain] at accounted
  exact (List.perm_append_left_iff _).mp (footprint.born.symm.trans accounted)

theorem totalPages_cons (block : Block) (blocks : List Block) :
    totalPages (block :: blocks) = block.pages + totalPages blocks := rfl

theorem totalPages_append (blocks more : List Block) :
    totalPages (blocks ++ more) = totalPages blocks + totalPages more := by
  induction blocks with
  | nil => exact (Nat.zero_add _).symm
  | cons block blocks ih =>
      rw [List.cons_append, totalPages_cons, totalPages_cons, ih, Nat.add_assoc]

theorem totalPages_perm {blocks more : List Block} (perm : blocks.Perm more) :
    totalPages blocks = totalPages more := by
  induction perm with
  | nil => rfl
  | cons block _ ih => rw [totalPages_cons, totalPages_cons, ih]
  | swap block other rest =>
      simp only [totalPages_cons]
      omega
  | trans _ _ first second => exact first.trans second

theorem totalPages_const {blocks : List Block} {pages : Nat}
    (each : ∀ block ∈ blocks, block.pages = pages) :
    totalPages blocks = blocks.length * pages := by
  induction blocks with
  | nil => exact (Nat.zero_mul pages).symm
  | cons block blocks ih =>
      obtain ⟨here, later⟩ := List.forall_mem_cons.mp each
      rw [totalPages_cons, here, ih later, List.length_cons, Nat.succ_mul, Nat.add_comm]

theorem Footprint.totalPages_ge (footprint : Footprint machine live pcbs userStacks others) :
    pcbs.length + 2 * machine.control.born.length ≤ totalPages live := by
  have stacked := footprint.each
  have one := totalPages_const footprint.onePage
  have two := totalPages_const footprint.twoPages
  rw [totalPages_perm footprint.live, totalPages_append, totalPages_append, one, two, stacked]
  omega

end Heap

/-! ## Every run -/

/-- What a run of processes asks of the heap of `memory_init` is a run of the heap: `kfree` is
called on live pointers only, on the PCBs of the reaped children in the order in which they are
reaped, and the PCB of each process of the table is a live block of its own. -/
theorem heap_calls {first last : Machine Heap} {trace : List (Transition (Machine Heap) Action)}
    (initial : first.Initial) (boot : first.kernel.allocator = memoryInit)
    (run : (processSystem heapAllocator.toAllocator).Trace first trace last) :
    ∃ live calls, heapSystem.Trace ⟨memoryInit, []⟩ calls ⟨last.kernel.allocator, live⟩ ∧
      (calls.filterMap fun call => freed call.action) = last.control.reaped.reverse ∧
      ∀ p, last.kernel.InTable p → ∃ block ∈ live, block.ptr = p ∧ block.pages = 1 := by
  have invariant := machineInvariant_initial heapAllocator initial
  obtain ⟨calls, live, pcbs, userStacks, others, made⟩ :=
    (footprint_initial initial).run invariant run
  have calling := made.run
  rw [boot] at calling
  refine ⟨live, calls, calling, ?_, ?_⟩
  · have unreaped : first.control.reaped = [] := by
      rw [initial.control]
      rfl
    rw [made.reaped, unreaped, List.append_nil, List.reverse_reverse]
  · intro p present
    have reached := reachable_machineInvariant heapAllocator ⟨first, trace, initial, run⟩
    obtain ⟨table, chain, member⟩ := present
    have listed := (made.footprint.table reached chain).mem_iff.mpr member
    obtain ⟨block, member, named⟩ := List.mem_map.mp listed
    exact ⟨block, made.footprint.live.mem_iff.mpr (List.mem_append_left _ member), named,
      made.footprint.onePage block member⟩

/-- A process forks, waits, is woken by the exit of its child and reaps it. -/
theorem heap_calls_fork_wait : ∃ trace last,
    (processSystem heapAllocator.toAllocator).record bootMachine forkExitWait =
      some (trace, last) ∧
    ∃ live calls, heapSystem.Trace ⟨memoryInit, []⟩ calls ⟨last.kernel.allocator, live⟩ ∧
      (calls.filterMap fun call => freed call.action) = last.control.reaped.reverse ∧
      ∀ p, last.kernel.InTable p → ∃ block ∈ live, block.ptr = p ∧ block.pages = 1 := by
  obtain ⟨trace, last, recorded⟩ := forkExitWait_recorded
  exact ⟨trace, last, recorded,
    heap_calls bootMachine_initial rfl (System.trace_of_record recorded)⟩

/-- User stacks are never given back: two pages for each process that there ever was and one
for each process in the table have to fit into the heap. -/
theorem processes_bounded {first last : Machine Heap}
    {trace : List (Transition (Machine Heap) Action)} (initial : first.Initial)
    (boot : first.kernel.allocator = memoryInit)
    (run : (processSystem heapAllocator.toAllocator).Trace first trace last) {table : List Addr}
    (chain : Chain last.kernel.pcb.nextInTable last.kernel.processTableHead table none) :
    2 * last.control.born.length + table.length ≤ numPages := by
  have invariant := machineInvariant_initial heapAllocator initial
  have reached := reachable_machineInvariant heapAllocator ⟨first, trace, initial, run⟩
  obtain ⟨calls, live, pcbs, userStacks, others, made⟩ :=
    (footprint_initial initial).run invariant run
  have calling := made.run
  rw [boot] at calling
  have disciplined : heapSystem.Reachable ⟨last.kernel.allocator, live⟩ :=
    ⟨⟨memoryInit, []⟩, calls, rfl, calling⟩
  have fits : totalPages live ≤ numPages :=
    (Memory.reachable_heapInvariant disciplined).totalPages_le
  have needs := made.footprint.totalPages_ge
  have listed := (made.footprint.table reached chain).length_eq
  rw [List.length_map] at listed
  omega

theorem processes_bounded_fork_wait : ∃ trace last,
    (processSystem heapAllocator.toAllocator).record bootMachine forkExitWait =
      some (trace, last) ∧ 2 * last.control.born.length + 1 ≤ numPages := by
  have runs : ((processSystem heapAllocator.toAllocator).record bootMachine forkExitWait).any
      fun run => decide (Chain run.2.kernel.pcb.nextInTable run.2.kernel.processTableHead [8]
        none) := by decide +kernel
  obtain ⟨⟨trace, last⟩, recorded, checked⟩ := (Option.any_eq_true ..).mp runs
  exact ⟨trace, last, recorded,
    processes_bounded bootMachine_initial rfl (System.trace_of_record recorded)
      (of_decide_eq_true checked)⟩

end ApnaOS.Process
