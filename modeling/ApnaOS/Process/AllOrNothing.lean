import ApnaOS.Memory.Sizes
import ApnaOS.Process.Creation
import ApnaOS.Process.Scheduler

/-!
# Is a creation all or nothing

`create_process` and `fork_syscall` give nothing back when a later request is refused,
and do not look at the result of the last one.  So they leave everything as it was or
make a whole process when none or all of their requests are served.
-/

set_option autoImplicit false

namespace ApnaOS.Process

open ApnaOS.Lib
open ApnaOS.Memory (Heap Block Apart Marked numPages)

/-! ## The two calls -/

/-- A state of the processes and the allocator: the lists are well formed and the PCBs in
them are allocated. -/
structure InUse (kernel : Kernel Heap) (processes : Processes) : Prop where
  refines : Refines kernel processes
  sound : processes.Sound
  live : ∀ p ∈ processes.table, HeapLive kernel.allocator p

theorem inUse_of_reachable {machine : Machine Heap}
    (reachable : (processSystem heapAllocator.toAllocator).Reachable machine) :
    ∃ processes, InUse machine.kernel processes := by
  obtain ⟨spec, shows, orderly⟩ := reachable_machineInvariant heapAllocator reachable
  exact ⟨spec.processes, shows.refines, orderly.sound, shows.live⟩

inductive CreationCall where
  | createProcess (pid entryPoint : Nat) (priority deadline timeToRun : Int)
  | forkSyscall (ebp : Nat)

namespace CreationCall

/-- The PCB of the new process if there is one; without a current process a fork does
nothing. -/
def run (fuel : Nat) (kernel : Kernel Heap) :
    CreationCall → Option (Option Addr × Kernel Heap)
  | .createProcess pid entryPoint priority deadline timeToRun =>
      Process.createProcess heapAllocator.toAllocator fuel kernel pid entryPoint priority deadline
        timeToRun
  | .forkSyscall ebp =>
      match kernel.currentProcess with
      | none => some (none, kernel)
      | some parent =>
          Process.forkSyscall heapAllocator.toAllocator fuel ebp kernel parent

def Fails (made : Option Addr) (kernel' : Kernel Heap) : CreationCall → Prop
  | .createProcess .. => made = none
  | .forkSyscall _ =>
      match made with
      | none => True
      | some child => asInt (kernel'.pcb child).pid = -1

def requests (kernel : Kernel Heap) : CreationCall → List UInt32
  | .createProcess .. => createRequests
  | .forkSyscall _ =>
      match kernel.currentProcess with
      | none => []
      | some parent => forkRequests kernel parent

/-- The PCBs with what the call stores first: a fork puts its frame into the caller's. -/
def entered (kernel : Kernel Heap) : CreationCall → PcbMemory
  | .createProcess .. => kernel.pcb
  | .forkSyscall ebp =>
      match kernel.currentProcess with
      | none => kernel.pcb
      | some parent => kernel.pcb.modify parent fun pcb => { pcb with userStackPtr := ebp }

/-- The base of the user stack as the new PCB shows it; a fork records only the pointer
into the stack. -/
def StackAt (kernel kernel' : Kernel Heap) (p base : Addr) : CreationCall → Prop
  | .createProcess .. => (kernel'.pcb p).userStackBase = base
  | .forkSyscall ebp => ∃ parent, kernel.currentProcess = some parent ∧
      (kernel'.pcb p).userStackPtr = childStackPtr base ebp (kernel.pcb parent).userStackBase

def PidReturns (kernel : Kernel Heap) : CreationCall → Prop
  | .createProcess .. => True
  | .forkSyscall _ => asInt (kernel.nextPid % wordRange) ≠ -1

end CreationCall

/-- The page table, the process table and the ready queue are as before, and so are the PCBs in
the table but for the frame that a fork stores. -/
structure Unchanged (call : CreationCall) (processes : Processes) (kernel kernel' : Kernel Heap) :
    Prop where
  pageTable : kernel'.allocator.pageTable = kernel.allocator.pageTable
  pcbs : ∀ p ∈ processes.table, kernel'.pcb p = call.entered kernel p
  processTableHead : kernel'.processTableHead = kernel.processTableHead
  table : Chain kernel'.pcb.nextInTable kernel'.processTableHead processes.table none
  readyQueue : kernel'.readyQueue = kernel.readyQueue
  ready : IsQueue kernel'.pcb kernel'.readyQueue processes.ready

/-- The new process is in both lists, and its PCB and its stacks are separate blocks. -/
structure Complete (call : CreationCall) (processes : Processes) (kernel kernel' : Kernel Heap)
    (p : Addr) (pcb userStack kernelStack : Block) : Prop where
  table : Chain kernel'.pcb.nextInTable kernel'.processTableHead (p :: processes.table) none
  ready : ∃ ready, IsQueue kernel'.pcb kernel'.readyQueue ready ∧ p ∈ ready
  pcbAt : p = pcb.ptr
  userStackAt : call.StackAt kernel kernel' p userStack.ptr
  kernelStackAt : (kernel'.pcb p).kernelStackBase = kernelStack.ptr
  nonNull : ∀ block ∈ [pcb, userStack, kernelStack], block.ptr ≠ 0
  allocated : ∀ block ∈ [pcb, userStack, kernelStack], Marked kernel'.allocator block
  apart : [pcb, userStack, kernelStack].Pairwise Apart

/-- A call that fails leaves everything as it was, any other makes a whole process. -/
def AllOrNothing (call : CreationCall) (processes : Processes) (kernel : Kernel Heap)
    (made : Option Addr) (kernel' : Kernel Heap) : Prop :=
  (call.Fails made kernel' → Unchanged call processes kernel kernel') ∧
  (¬ call.Fails made kernel' → ∃ p pcb userStack kernelStack, made = some p ∧
    Complete call processes kernel kernel' p pcb userStack kernelStack)

/-- None of the requests are served, or all of them, and then a fork does not return -1. -/
def NoneOrAll (call : CreationCall) (kernel : Kernel Heap) : Prop :=
  let served := (grants heapAllocator.toAllocator (call.requests kernel) kernel.allocator).1
  served = [] ∨ (served.length = (call.requests kernel).length ∧ call.PidReturns kernel)

structure Refused (call : CreationCall) (processes : Processes) (kernel : Kernel Heap)
    (made : Option Addr) (kernel' : Kernel Heap) : Prop where
  nobody : made = none
  allocator : kernel'.allocator =
    (grants heapAllocator.toAllocator (call.requests kernel) kernel.allocator).2
  served : (grants heapAllocator.toAllocator (call.requests kernel) kernel.allocator).1 = [] ∨
    (grants heapAllocator.toAllocator (call.requests kernel) kernel.allocator).1.length <
      (call.requests kernel).length
  table : Chain kernel'.pcb.nextInTable kernel'.processTableHead processes.table none
  ready : IsQueue kernel'.pcb kernel'.readyQueue processes.ready

structure Made (call : CreationCall) (processes : Processes) (kernel : Kernel Heap)
    (p stack : Addr) (table kernelStack : Option Addr) (kernel' : Kernel Heap) : Prop where
  granted : grants heapAllocator.toAllocator (call.requests kernel) kernel.allocator =
    (p :: stack :: (table.toList ++ kernelStack.toList), kernel'.allocator)
  requested : (call.requests kernel).length = table.toList.length + 3
  inTable : Chain kernel'.pcb.nextInTable kernel'.processTableHead (p :: processes.table) none
  ready : ∃ ready, IsQueue kernel'.pcb kernel'.readyQueue ready ∧ p ∈ ready
  userStack : call.StackAt kernel kernel' p stack
  kernelStackBase : (kernel'.pcb p).kernelStackBase = kernelStack.getD 0
  fails : call.Fails (some p) kernel' ↔ ¬ call.PidReturns kernel

theorem CreationCall.run_unserved {kernel kernel' : Kernel Heap} {call : CreationCall} {fuel : Nat}
    {made : Option Addr} (ran : call.run fuel kernel = some (made, kernel'))
    (unserved : (grants heapAllocator.toAllocator (call.requests kernel) kernel.allocator).1 = []) :
    kernel'.pcb = call.entered kernel := by
  have refused : ∀ rest,
      (grants heapAllocator.toAllocator (pcbSize :: rest) kernel.allocator).1 = [] →
        ∃ after, Memory.kmalloc kernel.allocator pcbSize = (none, after) := by
    intro rest nothing
    cases given : Memory.kmalloc kernel.allocator pcbSize with
    | mk result after =>
        cases result with
        | none => exact ⟨after, rfl⟩
        | some p =>
            rw [grants_some rest given] at nothing
            exact absurd nothing (List.cons_ne_nil _ _)
  cases call with
  | createProcess pid e priority d t =>
      obtain ⟨after, nothing⟩ := refused _ unserved
      have given : kernel.kmalloc heapAllocator.toAllocator pcbSize =
          (none, { kernel with allocator := after }) := kmalloc_eq kernel nothing
      simp only [run, Process.createProcess, given, Option.some.injEq, Prod.mk.injEq] at ran
      rw [← ran.2]
      rfl
  | forkSyscall ebp =>
      cases current : kernel.currentProcess with
      | none =>
          simp only [run, current, Option.some.injEq, Prod.mk.injEq] at ran
          simp only [entered, current]
          rw [ran.2]
      | some parent =>
          simp only [requests, current] at unserved
          obtain ⟨after, nothing⟩ := refused _ unserved
          let saved := kernel.modify parent fun pcb => { pcb with userStackPtr := ebp }
          have given : saved.kmalloc heapAllocator.toAllocator pcbSize =
              (none, { saved with allocator := after }) := kmalloc_eq saved nothing
          simp only [run, current, Process.forkSyscall, forkChild] at ran
          rw [given] at ran
          simp only [Option.some.injEq, Prod.mk.injEq] at ran
          simp only [entered, current]
          rw [← ran.2]
          rfl

theorem CreationCall.run_cases {kernel : Kernel Heap} {processes : Processes}
    (inUse : InUse kernel processes) (call : CreationCall) {fuel : Nat}
    (enough : processes.table.length ≤ fuel) :
    ∃ made kernel', call.run fuel kernel = some (made, kernel') ∧
      (Refused call processes kernel made kernel' ∨ ∃ p stack table kernelStack, made = some p ∧
        Made call processes kernel p stack table kernelStack kernel') := by
  obtain ⟨refines, sound, live⟩ := inUse
  cases call with
  | createProcess pid e priority d t =>
      obtain ⟨made, kernel', ran, _, result⟩ :=
        refines.createProcess sound heapAllocator live pid e priority d t enough
      refine ⟨made, kernel', ran, ?_⟩
      rcases createProcess_cases ran with ⟨rfl, few, allocator⟩ | ⟨p, stack, kernelStack, rfl, creates⟩
      · refine Or.inl ⟨rfl, allocator, Or.inr ?_, result.table, result.queue⟩
        exact Nat.lt_trans few (Nat.lt_succ_self 2)
      · obtain ⟨_, _, entered⟩ := result
        refine Or.inr ⟨p, stack, none, kernelStack, rfl, creates.granted, rfl, entered.table,
          ⟨_, entered.queue, (Processes.mem_ready_enqueue _ _ _).mpr (Or.inl rfl)⟩, creates.userStackBase,
          creates.kernelStackBase, ?_⟩
        simp [Fails, PidReturns]
  | forkSyscall ebp =>
      cases current : kernel.currentProcess with
      | none =>
          refine ⟨none, kernel, by simp only [run, current], Or.inl ⟨rfl, ?_, ?_, refines.table,
            refines.queue⟩⟩
          · simp only [requests, current]
            rfl
          · simp only [requests, current]
            exact Or.inl rfl
      | some parent =>
          have present : parent ∈ processes.table :=
            sound.current parent (refines.current ▸ current)
          have other : (Memory.kmalloc kernel.allocator pcbSize).1 ≠ some parent := by
            intro given
            exact heapAllocator.fresh (Prod.ext given rfl) (live parent present)
          have asked : (CreationCall.forkSyscall ebp).requests kernel =
              forkRequests kernel parent := by
            simp only [requests, current]
          obtain ⟨made, kernel', ran, _, result⟩ :=
            refines.forkSyscall sound heapAllocator live ebp parent enough
          refine ⟨made, kernel', by simp only [run, current]; exact ran, ?_⟩
          rcases forkSyscall_cases ran other with ⟨rfl, few, allocator⟩ |
            ⟨child, stack, table, kernelStack, rfl, forks⟩
          · left
            rw [← asked] at few allocator
            have lists : Chain kernel'.pcb.nextInTable kernel'.processTableHead processes.table none ∧
                IsQueue kernel'.pcb kernel'.readyQueue processes.ready := by
              rcases result with same | ⟨child, _, _, named⟩
              · exact ⟨same.table, same.queue⟩
              · exact ⟨named.table, named.queue⟩
            exact ⟨rfl, allocator, Or.inr (by omega), lists.1, lists.2⟩
          · obtain ⟨_, _, entered⟩ := result
            have granted := forks.granted
            rw [← asked] at granted
            refine Or.inr ⟨child, stack, table, kernelStack, rfl, granted, ?_, entered.table,
              ⟨_, entered.queue, (Processes.mem_ready_enqueue _ _ _).mpr (Or.inl rfl)⟩,
              ⟨parent, current, forks.userStackPtr⟩, forks.kernelStackBase, ?_⟩
            · have mapped := forks.mapped
              rw [asked, forkRequests, tableRequests]
              cases table with
              | none => simp [mapped.mp rfl]
              | some table =>
                  have wanted : (kernel.pcb parent).cr3 ≠ 0 := by
                    intro unmapped
                    cases mapped.mpr unmapped
                  simp [wanted]
            · simp only [Fails, PidReturns, forks.pid, Decidable.not_not]

/-! ## All or nothing -/

section Outcome

variable {call : CreationCall} {processes : Processes} {kernel kernel' : Kernel Heap}
  {p stack : Addr} {made table kernelStack : Option Addr}

theorem Refused.unchanged_iff (refused : Refused call processes kernel made kernel')
    (inUse : InUse kernel processes) {fuel : Nat}
    (ran : call.run fuel kernel = some (made, kernel')) :
    Unchanged call processes kernel kernel' ↔ NoneOrAll call kernel := by
  constructor
  · intro unchanged
    left
    by_contra served
    have changes := grants_changes served
    rw [← refused.allocator] at changes
    exact changes unchanged.pageTable
  · intro noneOrAll
    have nothing : (grants heapAllocator.toAllocator (call.requests kernel) kernel.allocator).1 =
        [] := by
      rcases refused.served with none_served | fewer
      · exact none_served
      · rcases noneOrAll with none_served | ⟨all, _⟩
        · exact none_served
        · exact absurd all (Nat.ne_of_lt fewer)
    refine ⟨?_, ?_, ?_, refused.table, ?_, refused.ready⟩
    · rw [refused.allocator]
      exact grants_nothing nothing
    · intro p _
      rw [call.run_unserved ran nothing]
    · rw [refused.table.start_eq, inUse.refines.table.start_eq]
    · have front : kernel'.readyQueue.front = kernel.readyQueue.front := by
        rw [refused.ready.chain.start_eq, inUse.refines.queue.chain.start_eq]
      have rear : kernel'.readyQueue.rear = kernel.readyQueue.rear := by
        rw [refused.ready.rear, inUse.refines.queue.rear]
      calc kernel'.readyQueue
          = ⟨kernel'.readyQueue.front, kernel'.readyQueue.rear⟩ := rfl
        _ = kernel.readyQueue := by rw [front, rear]

theorem Made.changes (finished : Made call processes kernel p stack table kernelStack kernel') :
    ¬ Unchanged call processes kernel kernel' := by
  intro unchanged
  have changes : (grants heapAllocator.toAllocator (call.requests kernel)
      kernel.allocator).2.pageTable ≠ kernel.allocator.pageTable := by
    apply grants_changes
    rw [finished.granted]
    exact List.cons_ne_nil _ _
  rw [finished.granted] at changes
  exact changes unchanged.pageTable

theorem Made.complete_iff
    (finished : Made call processes kernel p stack table kernelStack kernel') :
    (∃ pcb userStack kernelStack,
      Complete call processes kernel kernel' p pcb userStack kernelStack) ↔
      kernelStack.isSome = true := by
  constructor
  · rintro ⟨pcb, userStack, kernelBlock, complete⟩
    have base := complete.kernelStackAt
    rw [finished.kernelStackBase] at base
    cases kernelStack with
    | none => exact absurd base.symm (complete.nonNull kernelBlock (by simp))
    | some k => rfl
  · intro served
    obtain ⟨k, rfl⟩ := Option.isSome_iff_exists.mp served
    obtain ⟨blocks, named, _, takes⟩ := heap_grants (call.requests kernel) kernel.allocator
    rw [finished.granted] at named takes
    obtain ⟨pcb, rest, rfl, pcbAt, named⟩ := List.map_eq_cons_iff.mp named.symm
    obtain ⟨userStack, rest, rfl, stackAt, named⟩ := List.map_eq_cons_iff.mp named
    obtain ⟨mapped, last, rfl, _, named⟩ := List.map_eq_append_iff.mp named
    obtain ⟨kernelBlock, rest, rfl, kernelAt, named⟩ := List.map_eq_cons_iff.mp named
    cases List.map_eq_nil_iff.mp named
    have chosen : [pcb, userStack, kernelBlock].Sublist
        (pcb :: userStack :: (mapped ++ [kernelBlock])) :=
      ((List.sublist_append_right mapped [kernelBlock]).cons_cons userStack).cons_cons pcb
    refine ⟨pcb, userStack, kernelBlock, finished.inTable, finished.ready, pcbAt.symm, ?_, ?_,
      ?_, ?_, takes.apart.sublist chosen⟩
    · rw [stackAt]
      exact finished.userStack
    · rw [finished.kernelStackBase, kernelAt]
      rfl
    · intro block _
      exact Nat.succ_ne_zero _
    · intro block member
      exact takes.marked block (chosen.subset member)

theorem Made.noneOrAll_iff
    (finished : Made call processes kernel p stack table kernelStack kernel') :
    NoneOrAll call kernel ↔ kernelStack.isSome = true ∧ call.PidReturns kernel := by
  simp only [NoneOrAll, finished.granted, finished.requested, reduceCtorEq, false_or]
  refine and_congr ?_ Iff.rfl
  cases kernelStack with
  | none => simp
  | some k => simp

end Outcome

/-- A call of `create_process` or `fork_syscall` is all or nothing exactly when none of
its requests are served or all of them, and then a fork does not return -1. -/
theorem creation_all_or_nothing_iff (kernel : Kernel Heap) (processes : Processes)
    (inUse : InUse kernel processes) (call : CreationCall) (fuel : Nat)
    (enough : processes.table.length ≤ fuel) :
    ∃ made kernel', call.run fuel kernel = some (made, kernel') ∧
      (AllOrNothing call processes kernel made kernel' ↔ NoneOrAll call kernel) := by
  obtain ⟨made, kernel', ran, outcome⟩ := call.run_cases inUse enough
  refine ⟨made, kernel', ran, ?_⟩
  rcases outcome with refused | ⟨p, stack, table, kernelStack, rfl, finished⟩
  · have fails : call.Fails made kernel' := by
      rw [refused.nobody]
      cases call with
      | createProcess => rfl
      | forkSyscall => trivial
    rw [← refused.unchanged_iff inUse ran]
    exact ⟨fun whole => whole.1 fails, fun unchanged => ⟨fun _ => unchanged, fun not => absurd fails not⟩⟩
  · rw [finished.noneOrAll_iff]
    by_cases pidReturns : call.PidReturns kernel
    · have reports : ¬ call.Fails (some p) kernel' :=
        fun fails => finished.fails.mp fails pidReturns
      rw [and_iff_left pidReturns, ← finished.complete_iff]
      constructor
      · intro whole
        obtain ⟨q, pcb, userStack, kernelBlock, same, complete⟩ := whole.2 reports
        cases same
        exact ⟨pcb, userStack, kernelBlock, complete⟩
      · rintro ⟨pcb, userStack, kernelBlock, complete⟩
        exact ⟨fun fails => absurd fails reports,
          fun _ => ⟨p, pcb, userStack, kernelBlock, rfl, complete⟩⟩
    · have fails : call.Fails (some p) kernel' := finished.fails.mpr pidReturns
      exact iff_of_false (fun whole => finished.changes (whole.1 fails))
        fun both => pidReturns both.2

def noProcesses : Processes := ⟨[], [], fun _ => Pcb.zero.proc, none, 1, 0⟩

theorem noProcesses_inUse (heap : Heap) :
    InUse { bootMachine.kernel with allocator := heap } noProcesses where
  refines := ⟨⟨rfl, rfl⟩, rfl, fun _ => rfl, rfl, rfl, rfl⟩
  sound := by
    refine ⟨List.nodup_nil, List.nodup_nil, ?_, ?_, ?_, nofun⟩
    · exact fun _ => iff_of_false List.not_mem_nil fun both => List.not_mem_nil both.1
    · exact fun _ member => absurd member List.not_mem_nil
    · intro p blocks
      cases blocks
  live := fun _ member => absurd member List.not_mem_nil

def crowdedHeap : Heap := (Memory.kmalloc Memory.memoryInit 16773112).2

theorem crowdedHeap_spec :
    Memory.heapSystem.Reachable ⟨crowdedHeap, [⟨0, 4095⟩]⟩ ∧
      ∀ p, p < numPages → (crowdedHeap.pageTable p = 0 ↔ p = 4095) := by
  have wanted : Memory.pagesFor 16773112 = 4095 := by decide
  have start : Memory.heapSystem.Reachable ⟨Memory.memoryInit, []⟩ := System.reachable_initial rfl
  obtain ⟨after, given, allocated, reachable⟩ := Memory.kmalloc_empty start (fun _ _ => rfl)
    16773112 (by rw [wanted]; decide) (by rw [wanted]; decide)
  have position : Memory.memoryInit.lastPageIndex = 0 := rfl
  simp only [wanted, position] at given allocated reachable
  have crowded : crowdedHeap = after := by rw [crowdedHeap, given]
  rw [crowded]
  refine ⟨reachable, ?_⟩
  intro p bound
  have owns_iff : Block.Owns ⟨0, 4095⟩ p ↔ p < 4095 := by
    have inside : Block.Inside ⟨0, 4095⟩ := by rw [Block.Inside]; decide
    rw [inside.owns_iff]
    simp
  rw [Memory.numPages_eq] at bound
  constructor
  · intro free
    by_contra other
    exact allocated.marked.nonzero (owns_iff.mpr (by omega)) free
  · rintro rfl
    exact allocated.others 4095 fun owns => absurd (owns_iff.mp owns) (Nat.lt_irrefl 4095)

-- Unification must not run the allocator on it.
attribute [irreducible] crowdedHeap

/-- A fork by the process that runs, with its child and the heap it leaves, and a process that
is created with one page left. -/
theorem creation_all_or_nothing_iff_crowded :
    (∃ machine processes, (processSystem heapAllocator.toAllocator).Reachable machine ∧
      machine.kernel.currentProcess = some 8 ∧ InUse machine.kernel processes ∧
      ∃ made kernel', (CreationCall.forkSyscall 4200).run processes.table.length machine.kernel =
          some (made, kernel') ∧
        (AllOrNothing (.forkSyscall 4200) processes machine.kernel made kernel' ↔
          NoneOrAll (.forkSyscall 4200) machine.kernel)) ∧
    ∃ made kernel', (CreationCall.createProcess 1 0 1 2 3).run 0
        { bootMachine.kernel with allocator := crowdedHeap } = some (made, kernel') ∧
      (AllOrNothing (.createProcess 1 0 1 2 3) noProcesses
          { bootMachine.kernel with allocator := crowdedHeap } made kernel' ↔
        NoneOrAll (.createProcess 1 0 1 2 3)
          { bootMachine.kernel with allocator := crowdedHeap }) := by
  constructor
  · have runs : ((processSystem heapAllocator.toAllocator).record bootMachine
        [.createProcess 0 1 1 2, .createProcess 0 1 1 2, .start 0, .fork 4200]).any fun run =>
          decide (run.2.kernel.currentProcess = some 8) := by
      decide +kernel
    obtain ⟨⟨trace, machine⟩, recorded, current⟩ := (Option.any_eq_true ..).mp runs
    have reachable : (processSystem heapAllocator.toAllocator).Reachable machine :=
      ⟨bootMachine, trace, bootMachine_initial, System.trace_of_record recorded⟩
    obtain ⟨processes, inUse⟩ := inUse_of_reachable reachable
    exact ⟨machine, processes, reachable, of_decide_eq_true current, inUse,
      creation_all_or_nothing_iff machine.kernel processes inUse (.forkSyscall 4200) _
        (Nat.le_refl _)⟩
  · exact creation_all_or_nothing_iff { bootMachine.kernel with allocator := crowdedHeap }
      noProcesses (noProcesses_inUse crowdedHeap) (.createProcess 1 0 1 2 3) 0 (Nat.le_refl 0)

/-- The last page goes to the PCB, there is none for the stack, and the page stays taken. -/
theorem last_page_is_lost :
    InUse { bootMachine.kernel with allocator := crowdedHeap } noProcesses ∧
    ∃ kernel', (CreationCall.createProcess 1 0 1 2 3).run 0
        { bootMachine.kernel with allocator := crowdedHeap } = some (none, kernel') ∧
      kernel'.allocator.pageTable ≠ crowdedHeap.pageTable := by
  have free := crowdedHeap_spec.2
  have onePage : Memory.pagesFor pcbSize = 1 := by decide
  obtain ⟨ptr, after, first⟩ := Memory.kmalloc_one_page onePage (by decide) ((free 4095 (by decide)).mpr rfl)
  have second : Memory.kmalloc after 4096 = (none, after) := by
    rcases kmalloc_cases first with ⟨clash, _⟩ | ⟨start, _, allocated⟩
    · cases clash
    have here := Memory.Block.owns_start allocated.positive allocated.start_lt
    have last := (free start allocated.start_lt).mp (allocated.wasFree start here)
    have full : ∀ p, p < numPages → after.pageTable p ≠ 0 := by
      intro p bound
      by_cases owns : Block.Owns ⟨start, Memory.pagesFor pcbSize⟩ p
      · exact allocated.marked.nonzero owns
      · rw [allocated.others p owns]
        intro freeHere
        rw [(free p bound).mp freeHere, ← last] at owns
        exact owns here
    obtain ⟨⟨result, after'⟩, given⟩ : ∃ r, Memory.kmalloc after 4096 = r := ⟨_, rfl⟩
    rcases kmalloc_cases given with ⟨rfl, rfl⟩ | ⟨start', rfl, allocated'⟩
    · exact given
    · have here' := Memory.Block.owns_start allocated'.positive allocated'.start_lt
      exact absurd (allocated'.wasFree start' here') (full start' allocated'.start_lt)
  have served : grants heapAllocator.toAllocator createRequests crowdedHeap = ([ptr], after) := by
    rw [createRequests, grants_some _ first, grants_none _ second]
  have inUse := noProcesses_inUse crowdedHeap
  obtain ⟨made, kernel', ran, outcome⟩ :=
    (CreationCall.createProcess 1 0 1 2 3).run_cases inUse (Nat.le_refl 0)
  rcases outcome with refused | ⟨p, stack, table, kernelStack, rfl, finished⟩
  · have nobody := refused.nobody
    subst nobody
    refine ⟨inUse, kernel', ran, ?_⟩
    rw [refused.allocator]
    apply grants_changes
    exact fun none_served => List.cons_ne_nil ptr [] ((congrArg Prod.fst served).symm.trans none_served)
  · have clash := (congrArg Prod.fst served).symm.trans (congrArg Prod.fst finished.granted)
    simp at clash

end ApnaOS.Process
