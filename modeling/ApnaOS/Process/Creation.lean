import ApnaOS.Process.Frames

/-!
# What a creation takes and writes

`create_process` and `fork_syscall` ask the allocator for one thing after another.
How many of the requests are served decides the result.
-/

set_option autoImplicit false

namespace ApnaOS.Process

open ApnaOS.Lib
open ApnaOS.Memory (Heap Block Apart Marked)

variable {A : Type}

/-- The requests served one after another, up to the first that is refused. -/
def grants (alloc : Allocator A) : List UInt32 → A → List Addr × A
  | [], a => ([], a)
  | size :: rest, a =>
      match alloc.kmalloc a size with
      | (none, a) => ([], a)
      | (some p, a) => (p :: (grants alloc rest a).1, (grants alloc rest a).2)

theorem grants_none {alloc : Allocator A} {size : UInt32} {a a' : A} (rest : List UInt32)
    (given : alloc.kmalloc a size = (none, a')) : grants alloc (size :: rest) a = ([], a') := by
  simp only [grants, given]

theorem grants_some {alloc : Allocator A} {size : UInt32} {a a' : A} {p : Addr}
    (rest : List UInt32) (given : alloc.kmalloc a size = (some p, a')) :
    grants alloc (size :: rest) a = (p :: (grants alloc rest a').1, (grants alloc rest a').2) := by
  simp only [grants, given]

theorem kmalloc_of_grants {alloc : Allocator A} {size : UInt32} {rest : List UInt32} {a : A}
    {p : Addr} {ps : List Addr} (served : (grants alloc (size :: rest) a).1 = p :: ps) :
    ∃ a', alloc.kmalloc a size = (some p, a') ∧ (grants alloc rest a').1 = ps := by
  obtain ⟨⟨result, a'⟩, given⟩ : ∃ r, alloc.kmalloc a size = r := ⟨_, rfl⟩
  cases result with
  | none =>
      rw [grants_none rest given] at served
      cases served
  | some q =>
      rw [grants_some rest given] at served
      obtain ⟨rfl, rfl⟩ := List.cons.inj served
      exact ⟨a', given, rfl⟩

section Granted

variable (alloc : IsolatingAllocator A)

theorem grants_keeps (sizes : List UInt32) (a : A) {q : Addr} (used : alloc.live a q) :
    alloc.live (grants alloc.toAllocator sizes a).2 q := by
  induction sizes generalizing a with
  | nil => exact used
  | cons size rest ih =>
      obtain ⟨⟨result, a'⟩, given⟩ : ∃ r, alloc.kmalloc a size = r := ⟨_, rfl⟩
      cases result with
      | none =>
          rw [grants_none rest given]
          exact alloc.keeps given used
      | some p =>
          rw [grants_some rest given]
          exact ih a' (alloc.keeps given used)

theorem grants_new (sizes : List UInt32) (a : A) :
    ∀ q ∈ (grants alloc.toAllocator sizes a).1,
      ¬ alloc.live a q ∧ alloc.live (grants alloc.toAllocator sizes a).2 q := by
  induction sizes generalizing a with
  | nil => exact fun q member => absurd member List.not_mem_nil
  | cons size rest ih =>
      obtain ⟨⟨result, a'⟩, given⟩ : ∃ r, alloc.kmalloc a size = r := ⟨_, rfl⟩
      cases result with
      | none =>
          rw [grants_none rest given]
          exact fun q member => absurd member List.not_mem_nil
      | some p =>
          rw [grants_some rest given]
          intro q member
          rcases List.mem_cons.mp member with rfl | later
          · exact ⟨alloc.fresh given, grants_keeps alloc rest a' (alloc.gives given)⟩
          · exact ⟨fun used => (ih a' q later).1 (alloc.keeps given used), (ih a' q later).2⟩

theorem grants_nodup (sizes : List UInt32) (a : A) :
    (grants alloc.toAllocator sizes a).1.Nodup := by
  induction sizes generalizing a with
  | nil => exact List.nodup_nil
  | cons size rest ih =>
      obtain ⟨⟨result, a'⟩, given⟩ : ∃ r, alloc.kmalloc a size = r := ⟨_, rfl⟩
      cases result with
      | none =>
          rw [grants_none rest given]
          exact List.nodup_nil
      | some p =>
          rw [grants_some rest given]
          exact List.nodup_cons.mpr
            ⟨fun again => (grants_new alloc rest a' p again).1 (alloc.gives given), ih a'⟩

end Granted

/-! ## create_process -/

def createRequests : List UInt32 := [pcbSize, 4096, kernelStackSize]

/-- What a successful `create_process` leaves; a kernel stack that was refused is NULL. -/
structure Creates (alloc : Allocator A) (kernel : Kernel A) (p stack : Addr)
    (kernelStack : Option Addr) (kernel' : Kernel A) : Prop where
  granted : grants alloc createRequests kernel.allocator =
    (p :: stack :: kernelStack.toList, kernel'.allocator)
  userStackBase : (kernel'.pcb p).userStackBase = stack
  kernelStackBase : (kernel'.pcb p).kernelStackBase = kernelStack.getD 0

theorem setUpProcess_writes {alloc : Allocator A} {kernel : Kernel A} {p stack pid e : Nat}
    {priority d t : Int} {kernelStack : Option Addr} {a : A}
    (given : alloc.kmalloc kernel.allocator kernelStackSize = (kernelStack, a)) :
    let kernel' := setUpProcess alloc kernel p stack pid e priority d t
    kernel'.allocator = a ∧ (kernel'.pcb p).userStackBase = stack ∧
      (kernel'.pcb p).kernelStackBase = kernelStack.getD 0 := by
  simp only [setUpProcess, allocateKernelStack, Kernel.kmalloc, pcb_modify, if_true]
  simp only [Kernel.modify, given, Nat.add_sub_cancel]
  exact ⟨trivial, trivial, trivial⟩

theorem createProcess_cases {alloc : Allocator A} {kernel kernel' : Kernel A} {fuel pid e : Nat}
    {priority d t : Int} {result : Option Addr}
    (ran : createProcess alloc fuel kernel pid e priority d t = some (result, kernel')) :
    (result = none ∧ (grants alloc createRequests kernel.allocator).1.length < 2 ∧
      kernel'.allocator = (grants alloc createRequests kernel.allocator).2) ∨
    ∃ p stack kernelStack, result = some p ∧ Creates alloc kernel p stack kernelStack kernel' := by
  obtain ⟨⟨process, a₁⟩, given₁⟩ : ∃ r, alloc.kmalloc kernel.allocator pcbSize = r := ⟨_, rfl⟩
  cases process with
  | none =>
      simp only [createProcess, kmalloc_eq _ given₁, Option.some.injEq, Prod.mk.injEq] at ran
      left
      rw [createRequests, grants_none _ given₁, ← ran.1, ← ran.2]
      exact ⟨rfl, Nat.zero_lt_two, rfl⟩
  | some p =>
      obtain ⟨⟨stack, a₂⟩, given₂⟩ : ∃ r, alloc.kmalloc a₁ 4096 = r := ⟨_, rfl⟩
      have stacked := kmalloc_eq { kernel with allocator := a₁ } given₂
      cases stack with
      | none =>
          simp only [createProcess, kmalloc_eq _ given₁, stacked, Option.some.injEq,
            Prod.mk.injEq] at ran
          left
          rw [createRequests, grants_some _ given₁, grants_none _ given₂, ← ran.1, ← ran.2]
          exact ⟨rfl, by simp, rfl⟩
      | some stack =>
          obtain ⟨⟨kernelStack, a₃⟩, given₃⟩ : ∃ r, alloc.kmalloc a₂ kernelStackSize = r := ⟨_, rfl⟩
          simp only [createProcess, kmalloc_eq _ given₁, stacked, Option.bind_eq_bind] at ran
          obtain ⟨queued, enqueued, made⟩ := Option.bind_eq_some_iff.mp ran
          obtain ⟨only, allocator, _⟩ := enqueueReady_only enqueued
          simp only [Option.some.injEq, Prod.mk.injEq] at made
          obtain ⟨took, base, kernelBase⟩ := @setUpProcess_writes A alloc { kernel with allocator := a₂ }
            p stack pid e priority d t kernelStack a₃ given₃
          refine Or.inr ⟨p, stack, kernelStack, made.1.symm, ?_, ?_, ?_⟩
          · have last : (grants alloc [kernelStackSize] a₂) = (kernelStack.toList, a₃) := by
              cases kernelStack with
              | none => exact grants_none [] given₃
              | some k => exact grants_some [] given₃
            rw [createRequests, grants_some _ given₁, grants_some _ given₂, last, ← made.2, allocator]
            exact congrArg (Prod.mk _) took.symm
          · rw [← made.2, only.field Pcb.userStackBase fun _ _ => rfl, Kernel.setState, pcb_modify,
              if_pos rfl]
            exact base
          · rw [← made.2, only.field Pcb.kernelStackBase fun _ _ => rfl, Kernel.setState, pcb_modify,
              if_pos rfl]
            exact kernelBase

/-! ## fork_syscall -/

def tableRequests (cr3 : Nat) : List UInt32 := if cr3 ≠ 0 then [4096] else []

def forkRequests (kernel : Kernel A) (parent : Addr) : List UInt32 :=
  [pcbSize, 4096] ++ tableRequests (kernel.pcb parent).cr3 ++ [kernelStackSize]

/-- The memory after a fork: the copy of the stack, and of the page table if there is one. -/
def forkMemory (memory : Nat → UInt8) (parent : Pcb) (stack : Addr) (table : Option Addr) :
    Nat → UInt8 :=
  let copied := copyMemory stack parent.userStackBase 4096 memory
  table.elim copied fun table => copyPageTables parent.cr3 table copied

/-- What the second half of a fork leaves in the PCB of the child and in memory. -/
structure SetsUp (alloc : Allocator A) (kernel : Kernel A) (parent child stack : Addr)
    (table kernelStack : Option Addr) (kernel' : Kernel A) : Prop where
  granted : grants alloc (tableRequests (kernel.pcb parent).cr3 ++ [kernelStackSize])
    kernel.allocator = (table.toList ++ kernelStack.toList, kernel'.allocator)
  mapped : table = none ↔ (kernel.pcb parent).cr3 = 0
  pid : (kernel'.pcb child).pid = (kernel.pcb child).pid
  userStackPtr : (kernel'.pcb child).userStackPtr = childStackPtr stack
    (kernel.pcb parent).userStackPtr (kernel.pcb parent).userStackBase
  userStackBase : (kernel'.pcb child).userStackBase = (kernel.pcb child).userStackBase
  kernelStackBase : (kernel'.pcb child).kernelStackBase = kernelStack.getD 0
  memory : kernel'.memory = forkMemory kernel.memory (kernel.pcb parent) stack table

/-- What `copyCr3` leaves when it does not fail. -/
structure Maps (alloc : Allocator A) (kernel : Kernel A) (parent child : Addr)
    (table : Option Addr) (kernel' : Kernel A) : Prop where
  granted : ∀ rest, grants alloc (tableRequests (kernel.pcb parent).cr3 ++ rest) kernel.allocator =
    (table.toList ++ (grants alloc rest kernel'.allocator).1,
      (grants alloc rest kernel'.allocator).2)
  mapped : table = none ↔ (kernel.pcb parent).cr3 = 0
  pcb : ∃ cr3, kernel'.pcb child = { kernel.pcb child with cr3 := cr3 }
  memory : kernel'.memory = table.elim kernel.memory fun table =>
    copyPageTables (kernel.pcb parent).cr3 table kernel.memory

theorem copyCr3_cases (alloc : Allocator A) (kernel : Kernel A) {parent child : Addr}
    (other : parent ≠ child) :
    (∃ kernel', copyCr3 alloc kernel parent child = (none, kernel') ∧
      (kernel.pcb parent).cr3 ≠ 0 ∧ ∀ rest, grants alloc (tableRequests (kernel.pcb parent).cr3 ++ rest) kernel.allocator =
        ([], kernel'.allocator)) ∨
    ∃ kernel' table, copyCr3 alloc kernel parent child = (some (), kernel') ∧
      Maps alloc kernel parent child table kernel' := by
  by_cases unmapped : (kernel.pcb parent).cr3 = 0
  · refine Or.inr ⟨kernel, none, ?_, ?_, iff_of_true rfl unmapped, ⟨_, rfl⟩, rfl⟩
    · simp only [copyCr3, unmapped, ne_eq, not_true_eq_false, if_false]
    · simp [tableRequests, unmapped]
  · obtain ⟨⟨table, a⟩, given⟩ : ∃ r, alloc.kmalloc kernel.allocator 4096 = r := ⟨_, rfl⟩
    have asked : tableRequests (kernel.pcb parent).cr3 = [4096] := if_pos unmapped
    simp only [copyCr3, ne_eq, unmapped, not_false_eq_true, if_true, kmalloc_eq _ given]
    cases table with
    | none =>
        refine Or.inl ⟨_, rfl, trivial, fun rest => ?_⟩
        rw [asked, List.singleton_append, grants_none rest given]
        rfl
    | some table =>
        refine Or.inr ⟨_, some table, rfl, ?_, iff_of_false nofun unmapped,
          ⟨table, by rw [pcb_modify, if_pos rfl]; rfl⟩, ?_⟩
        · intro rest
          rw [asked, List.singleton_append, grants_some rest given]
          rfl
        · rw [pcb_modify, if_neg other]
          rfl

theorem setUpChild_cases (alloc : Allocator A) (kernel : Kernel A) {parent child : Addr}
    (stack : Addr) (other : parent ≠ child) :
    (∃ kernel', setUpChild alloc kernel parent child stack = (none, kernel') ∧
      (kernel.pcb parent).cr3 ≠ 0 ∧
      grants alloc (tableRequests (kernel.pcb parent).cr3 ++ [kernelStackSize]) kernel.allocator =
        ([], kernel'.allocator)) ∨
    ∃ kernel' table kernelStack, setUpChild alloc kernel parent child stack = (some (), kernel') ∧
      SetsUp alloc kernel parent child stack table kernelStack kernel' := by
  let copied : Kernel A := { kernel with
    memory := copyMemory stack (kernel.pcb parent).userStackBase 4096 kernel.memory }
  let stackPtr := childStackPtr stack (kernel.pcb parent).userStackPtr
    (kernel.pcb parent).userStackBase
  let stacked := copied.modify child fun pcb => { pcb with userStackPtr := stackPtr }
  have sameParent : stacked.pcb parent = kernel.pcb parent := by
    rw [pcb_modify, if_neg other]
  have named : stacked.pcb child = { kernel.pcb child with userStackPtr := stackPtr } := by
    rw [pcb_modify, if_pos rfl]
  have result := copyCr3_cases alloc stacked other
  unfold setUpChild
  dsimp only
  rcases result with ⟨kernel₁, ran, mapped, granted⟩ | ⟨kernel₁, table, ran, maps⟩
  · rw [ran]
    rw [sameParent] at mapped granted
    exact Or.inl ⟨kernel₁, rfl, mapped, granted _⟩
  · rw [ran]
    obtain ⟨cr3, filled⟩ := maps.pcb
    obtain ⟨⟨kernelStack, a⟩, given⟩ : ∃ r, alloc.kmalloc kernel₁.allocator kernelStackSize = r :=
      ⟨_, rfl⟩
    have last : grants alloc [kernelStackSize] kernel₁.allocator = (kernelStack.toList, a) := by
      cases kernelStack with
      | none => exact grants_none [] given
      | some k => exact grants_some [] given
    have granted := maps.granted [kernelStackSize]
    have mapped := maps.mapped
    have memory := maps.memory
    rw [sameParent] at granted mapped memory
    rw [last] at granted
    simp only [allocateKernelStack, kmalloc_eq _ given]
    refine Or.inr ⟨_, table, kernelStack, rfl, granted, mapped, ?_, ?_, ?_, ?_, memory⟩
    · simp only [pcb_modify, if_true, filled, named]
    · simp only [pcb_modify, if_true, filled, named]
      rfl
    · simp only [pcb_modify, if_true, filled, named]
    · simp only [pcb_modify, if_true]

/-- What a successful `fork_syscall` leaves. -/
structure Forks (alloc : Allocator A) (ebp : Nat) (kernel : Kernel A) (parent child stack : Addr)
    (table kernelStack : Option Addr) (kernel' : Kernel A) : Prop where
  granted : grants alloc (forkRequests kernel parent) kernel.allocator =
    (child :: stack :: (table.toList ++ kernelStack.toList), kernel'.allocator)
  mapped : table = none ↔ (kernel.pcb parent).cr3 = 0
  pid : (kernel'.pcb child).pid = kernel.nextPid % wordRange
  userStackPtr : (kernel'.pcb child).userStackPtr =
    childStackPtr stack ebp (kernel.pcb parent).userStackBase
  userStackBase : (kernel'.pcb child).userStackBase = (kernel.pcb child).userStackBase
  kernelStackBase : (kernel'.pcb child).kernelStackBase = kernelStack.getD 0
  memory : kernel'.memory = forkMemory kernel.memory (kernel.pcb parent) stack table

theorem forkSyscall_cases {alloc : Allocator A} {kernel kernel' : Kernel A} {fuel ebp : Nat}
    {parent : Addr} {result : Option Addr}
    (ran : forkSyscall alloc fuel ebp kernel parent = some (result, kernel'))
    (other : (alloc.kmalloc kernel.allocator pcbSize).1 ≠ some parent) :
    (result = none ∧
      (grants alloc (forkRequests kernel parent) kernel.allocator).1.length + 1 <
        (forkRequests kernel parent).length ∧
      kernel'.allocator = (grants alloc (forkRequests kernel parent) kernel.allocator).2) ∨
    ∃ child stack table kernelStack, result = some child ∧
      Forks alloc ebp kernel parent child stack table kernelStack kernel' := by
  let saved := kernel.modify parent fun pcb => { pcb with userStackPtr := ebp }
  have requests : forkRequests kernel parent = pcbSize :: 4096 ::
      (tableRequests (kernel.pcb parent).cr3 ++ [kernelStackSize]) := rfl
  obtain ⟨⟨child, a₁⟩, given₁⟩ : ∃ r, alloc.kmalloc kernel.allocator pcbSize = r := ⟨_, rfl⟩
  have first : saved.kmalloc alloc pcbSize = (child, { saved with allocator := a₁ }) :=
    kmalloc_eq saved given₁
  cases child with
  | none =>
      simp only [forkSyscall, forkChild] at ran
      rw [first] at ran
      simp only [Option.some.injEq, Prod.mk.injEq] at ran
      left
      rw [requests, grants_none _ given₁, ← ran.1, ← ran.2]
      exact ⟨rfl, by simp, rfl⟩
  | some child =>
      rw [given₁] at other
      have different : parent ≠ child := fun same => other (congrArg some same.symm)
      obtain ⟨⟨stack, a₂⟩, given₂⟩ : ∃ r, alloc.kmalloc a₁ 4096 = r := ⟨_, rfl⟩
      let named := nameChild { saved with allocator := a₁ } parent child
      have second : named.kmalloc alloc 4096 = (stack, { named with allocator := a₂ }) :=
        kmalloc_eq named given₂
      simp only [forkSyscall, forkChild] at ran
      rw [first] at ran
      dsimp only at ran
      rw [second] at ran
      cases stack with
      | none =>
          simp only [Option.some.injEq, Prod.mk.injEq] at ran
          left
          rw [requests, grants_some _ given₁, grants_none _ given₂, ← ran.1, ← ran.2]
          exact ⟨rfl, by simp, rfl⟩
      | some stack =>
          have namedParent : named.pcb parent =
              { kernel.pcb parent with userStackPtr := ebp } := by
            simp only [named, nameChild, Kernel.getNewPid, pcb_modify, different, if_false]
            exact (pcb_modify kernel parent parent _).trans (if_pos rfl)
          have namedChild : (named.pcb child).pid = kernel.nextPid % wordRange ∧
              (named.pcb child).userStackBase = (kernel.pcb child).userStackBase := by
            have kept : saved.pcb child = kernel.pcb child :=
              (pcb_modify kernel parent child _).trans (if_neg (Ne.symm different))
            simp only [named, nameChild, Kernel.getNewPid, pcb_modify, if_true, kept]
            exact ⟨rfl, trivial⟩
          dsimp only at ran
          rcases setUpChild_cases alloc { named with allocator := a₂ } stack different with
            ⟨kernel₁, set, mapped, granted⟩ | ⟨kernel₁, table, kernelStack, set, setsUp⟩
          · rw [set] at ran
            simp only [Option.some.injEq, Prod.mk.injEq] at ran
            simp only [namedParent] at mapped granted
            left
            rw [requests, grants_some _ given₁, grants_some _ given₂, granted, ← ran.1, ← ran.2]
            exact ⟨rfl, by simp [tableRequests, mapped], rfl⟩
          · rw [set] at ran
            obtain ⟨queued, enqueued, made⟩ := Option.bind_eq_some_iff.mp ran
            simp only [Option.some.injEq, Prod.mk.injEq] at made
            obtain ⟨only, allocator, memory, _⟩ := enqueueReady_only enqueued
            obtain ⟨granted, mapped, pid, userStackPtr, userStackBase, kernelStackBase, copied⟩ :=
              setsUp
            simp only [namedParent] at granted mapped userStackPtr copied
            refine Or.inr ⟨child, stack, table, kernelStack, made.1.symm, ?_⟩
            rw [← made.2]
            refine ⟨?_, mapped, ?_, ?_, ?_, ?_, memory.trans copied⟩
            · rw [requests, grants_some _ given₁, grants_some _ given₂, granted, allocator]
            · rw [only.field Pcb.pid fun _ _ => rfl, pid]
              exact namedChild.1
            · rw [only.field Pcb.userStackPtr fun _ _ => rfl, userStackPtr]
            · rw [only.field Pcb.userStackBase fun _ _ => rfl, userStackBase]
              exact namedChild.2
            · rw [only.field Pcb.kernelStackBase fun _ _ => rfl, kernelStackBase]

/-! ## Blocks of the heap -/

structure TakesBlocks (heap : Heap) (blocks : List Block) (after : Heap) : Prop where
  wasFree : ∀ block ∈ blocks, ∀ p, block.Owns p → heap.pageTable p = 0
  marked : ∀ block ∈ blocks, Marked after block
  apart : blocks.Pairwise Apart
  others : ∀ p, (∀ block ∈ blocks, ¬ block.Owns p) → after.pageTable p = heap.pageTable p

theorem takesBlocks_nil (heap : Heap) : TakesBlocks heap [] heap where
  wasFree := fun _ member => absurd member List.not_mem_nil
  marked := fun _ member => absurd member List.not_mem_nil
  apart := List.Pairwise.nil
  others := fun _ _ => rfl

theorem TakesBlocks.cons {heap middle after : Heap} {block : Block} {blocks : List Block}
    (first : Memory.Allocated heap block middle) (rest : TakesBlocks middle blocks after) :
    TakesBlocks heap (block :: blocks) after := by
  have apart : ∀ other ∈ blocks, Apart block other := by
    intro other member p owns owns'
    exact first.marked.nonzero owns (rest.wasFree other member p owns')
  refine ⟨?_, ?_, List.pairwise_cons.mpr ⟨apart, rest.apart⟩, ?_⟩
  · intro other member p owns
    rcases List.mem_cons.mp member with rfl | later
    · exact first.wasFree p owns
    · have foreign : ¬ block.Owns p := fun owns' => apart other later p owns' owns
      rw [← first.others p foreign]
      exact rest.wasFree other later p owns
  · intro other member
    rcases List.mem_cons.mp member with rfl | later
    · refine first.marked.congr fun p owns => rest.others p ?_
      exact fun other' later owns' => apart other' later p owns owns'
    · exact rest.marked other later
  · intro p foreign
    obtain ⟨here, later⟩ := List.forall_mem_cons.mp foreign
    exact (rest.others p later).trans (first.others p here)

theorem heap_grants (sizes : List UInt32) (heap : Heap) :
    ∃ blocks : List Block,
      (grants heapAllocator.toAllocator sizes heap).1 = blocks.map Block.ptr ∧
      blocks.map Block.pages = (sizes.map Memory.pagesFor).take blocks.length ∧
      TakesBlocks heap blocks (grants heapAllocator.toAllocator sizes heap).2 := by
  induction sizes generalizing heap with
  | nil => exact ⟨[], rfl, rfl, takesBlocks_nil heap⟩
  | cons size sizes ih =>
      obtain ⟨⟨result, after⟩, given⟩ : ∃ r, Memory.kmalloc heap size = r := ⟨_, rfl⟩
      rcases kmalloc_cases given with ⟨rfl, rfl⟩ | ⟨start, rfl, allocated⟩
      · rw [grants_none sizes given]
        exact ⟨[], rfl, rfl, takesBlocks_nil after⟩
      · obtain ⟨blocks, named, pages, takes⟩ := ih after
        rw [grants_some sizes given, named]
        refine ⟨⟨start, Memory.pagesFor size⟩ :: blocks, rfl, ?_, takes.cons allocated⟩
        rw [List.map_cons, pages, List.map_cons, List.length_cons, List.take_succ_cons]

theorem Forks.blocks {ebp : Nat} {kernel kernel' : Kernel Heap} {parent child stack : Addr}
    {table kernelStack : Option Addr}
    (forks : Forks heapAllocator.toAllocator ebp kernel parent child stack table kernelStack kernel') :
    ∃ (pcb user : Block) (others : List Block), child = pcb.ptr ∧ stack = user.ptr ∧
      others.map Block.ptr = table.toList ++ kernelStack.toList ∧
      (pcb :: user :: others).map Block.pages =
        ((forkRequests kernel parent).map Memory.pagesFor).take (others.length + 2) ∧
      TakesBlocks kernel.allocator (pcb :: user :: others) kernel'.allocator := by
  obtain ⟨blocks, named, pages, takes⟩ :=
    heap_grants (forkRequests kernel parent) kernel.allocator
  rw [forks.granted] at named takes
  obtain ⟨pcb, afterPcb, rfl, child, later⟩ := List.map_eq_cons_iff.mp named.symm
  obtain ⟨user, others, rfl, stack, later⟩ := List.map_eq_cons_iff.mp later
  exact ⟨pcb, user, others, child.symm, stack.symm, later, pages, takes⟩

theorem grants_changes {sizes : List UInt32} {heap : Heap}
    (served : (grants heapAllocator.toAllocator sizes heap).1 ≠ []) :
    (grants heapAllocator.toAllocator sizes heap).2.pageTable ≠ heap.pageTable := by
  obtain ⟨blocks, named, _, takes⟩ := heap_grants sizes heap
  cases blocks with
  | nil => exact absurd named served
  | cons block blocks =>
      have marked := takes.marked block List.mem_cons_self
      have free := takes.wasFree block List.mem_cons_self _ marked.owns_start
      intro same
      exact marked.nonzero marked.owns_start ((congrFun same block.start).trans free)

theorem grants_nothing {sizes : List UInt32} {heap : Heap}
    (refused : (grants heapAllocator.toAllocator sizes heap).1 = []) :
    (grants heapAllocator.toAllocator sizes heap).2.pageTable = heap.pageTable := by
  obtain ⟨blocks, named, _, takes⟩ := heap_grants sizes heap
  rw [refused] at named
  cases List.map_eq_nil_iff.mp named.symm
  funext p
  exact takes.others p fun _ member => absurd member List.not_mem_nil

end ApnaOS.Process
