import ApnaOS.Process.ChildStack
import ApnaOS.Process.Leak

/-!
# Who writes user_stack_base

Only `create_process` does.  The field of a forked child is what its memory held before:
nothing, or the stack of a process that had this PCB earlier.
-/

set_option autoImplicit false

namespace ApnaOS.Process

open ApnaOS.Lib
open ApnaOS.Memory (Heap)

variable {A : Type}

/-! ## Functions that do not write it -/

theorem settled_userStackBase : Settled Pcb.userStackBase where
  state := fun _ _ => rfl
  next := fun _ _ => rfl
  nextInTable := fun _ _ => rfl
  userStackPtr := fun _ _ => rfl
  kernelStackPtr := fun _ _ => rfl
  isNewChild := fun _ _ => rfl
  exitStatus := fun _ _ => rfl

/-- No PCB changes its `user_stack_base`. -/
abbrev KeepsBases (kernel kernel' : Kernel A) : Prop := KeepsField Pcb.userStackBase kernel kernel'

namespace KeepsBases

variable {kernel kernel' : Kernel A} {alloc : Allocator A} {fuel ebp : Nat}

theorem kmalloc (alloc : Allocator A) (kernel : Kernel A) (size : UInt32) :
    KeepsBases kernel (kernel.kmalloc alloc size).2 := fun _ => rfl

theorem allocateKernelStack (alloc : Allocator A) (kernel : Kernel A) (p : Addr) :
    KeepsBases kernel (allocateKernelStack alloc kernel p) :=
  KeepsField.modify (kernel.kmalloc alloc kernelStackSize).2 p _ fun _ => rfl

theorem nameChild (kernel : Kernel A) (parent child : Addr) :
    KeepsBases kernel (nameChild kernel parent child) :=
  KeepsField.modify kernel.getNewPid.2 child _ fun _ => rfl

theorem copyCr3 (alloc : Allocator A) (kernel : Kernel A) (parent child : Addr) :
    KeepsBases kernel (copyCr3 alloc kernel parent child).2 := by
  unfold Process.copyCr3
  split
  · have mapped : KeepsBases kernel ((kernel.kmalloc alloc 4096).2.modify child fun pcb =>
        { pcb with cr3 := (kernel.kmalloc alloc 4096).1.getD 0 }) :=
      KeepsField.modify _ child _ fun _ => rfl
    dsimp only
    split <;> exact mapped
  · exact .refl kernel

theorem setUpChild (alloc : Allocator A) (kernel : Kernel A) (parent child stack : Addr) :
    KeepsBases kernel (setUpChild alloc kernel parent child stack).2 := by
  let copied : Kernel A := { kernel with
    memory := copyMemory stack (kernel.pcb parent).userStackBase 4096 kernel.memory }
  let stacked := copied.modify child fun pcb =>
    { pcb with userStackPtr := childStackPtr stack (kernel.pcb parent).userStackPtr
                 (kernel.pcb parent).userStackBase }
  have moved : KeepsBases kernel stacked := KeepsField.modify copied child _ fun _ => rfl
  have mapped := moved.trans (copyCr3 alloc stacked parent child)
  unfold Process.setUpChild
  dsimp only
  split
  · rename_i given
    rw [given] at mapped
    exact mapped
  · rename_i kernel₁ given
    rw [given] at mapped
    have stacked := mapped.trans (allocateKernelStack alloc kernel₁ child)
    let kernel₂ := Process.allocateKernelStack alloc kernel₁ child
    have linked : KeepsBases kernel₂ (kernel₂.modify child fun pcb =>
        { pcb with state := .ready, isNewChild := true, nextInTable := kernel₂.processTableHead }) :=
      KeepsField.modify kernel₂ child _ fun _ => rfl
    exact stacked.trans linked

theorem forkChild {parent : Addr} {result : Option Addr}
    (ran : forkChild alloc fuel kernel parent = some (result, kernel')) :
    KeepsBases kernel kernel' := by
  have taken := kmalloc alloc kernel pcbSize
  rw [Process.forkChild] at ran
  split at ran
  · rename_i given
    rw [given] at taken
    obtain ⟨_, rfl⟩ := Prod.mk.inj (Option.some.inj ran)
    exact taken
  · rename_i child kernel₁ given
    rw [given] at taken
    have named := taken.trans (nameChild kernel₁ parent child)
    have stacked := named.trans (kmalloc alloc (Process.nameChild kernel₁ parent child) 4096)
    dsimp only at ran
    split at ran
    · rename_i given
      rw [given] at stacked
      obtain ⟨_, rfl⟩ := Prod.mk.inj (Option.some.inj ran)
      exact stacked
    · rename_i stack kernel₂ given
      rw [given] at stacked
      have filled := stacked.trans (setUpChild alloc kernel₂ parent child stack)
      split at ran
      · rename_i given
        rw [given] at filled
        obtain ⟨_, rfl⟩ := Prod.mk.inj (Option.some.inj ran)
        exact filled
      · rename_i kernel₃ given
        rw [given] at filled
        obtain ⟨kernel₄, queued, same⟩ := Option.bind_eq_some_iff.mp ran
        obtain ⟨_, rfl⟩ := Prod.mk.inj (Option.some.inj same)
        exact filled.trans (settled_userStackBase.enqueueReady queued).1

theorem forkSyscall {parent : Addr} {result : Option Addr}
    (ran : forkSyscall alloc fuel ebp kernel parent = some (result, kernel')) :
    KeepsBases kernel kernel' := by
  have saved : KeepsBases kernel (kernel.modify parent fun pcb => { pcb with userStackPtr := ebp }) :=
    KeepsField.modify kernel parent _ fun _ => rfl
  exact saved.trans (forkChild ran)

end KeepsBases

/-! ## create_process -/

section Create

variable {alloc : Allocator A} {kernel kernel' : Kernel A} {fuel pid e : Nat} {priority d t : Int}

theorem userStackBase_setUpProcess (kernel : Kernel A) {p a : Addr} (stack : Addr) (other : a ≠ p) :
    ((setUpProcess alloc kernel p stack pid e priority d t).pcb a).userStackBase =
      (kernel.pcb a).userStackBase := by
  simp only [setUpProcess, allocateKernelStack, Kernel.kmalloc, pcb_modify, other, if_false]

theorem userStackBase_createProcess {result : Option Addr} {a : Addr}
    (ran : createProcess alloc fuel kernel pid e priority d t = some (result, kernel'))
    (other : result ≠ some a) : (kernel'.pcb a).userStackBase = (kernel.pcb a).userStackBase := by
  have taken := KeepsBases.kmalloc alloc kernel pcbSize
  rw [createProcess] at ran
  split at ran
  · rename_i given
    rw [given] at taken
    obtain ⟨_, rfl⟩ := Prod.mk.inj (Option.some.inj ran)
    exact taken a
  · rename_i p kernel₁ given
    rw [given] at taken
    have stacked := taken.trans (KeepsBases.kmalloc alloc kernel₁ 4096)
    split at ran
    · rename_i given
      rw [given] at stacked
      obtain ⟨_, rfl⟩ := Prod.mk.inj (Option.some.inj ran)
      exact stacked a
    · rename_i stack kernel₂ given
      rw [given] at stacked
      obtain ⟨kernel₃, queued, same⟩ := Option.bind_eq_some_iff.mp ran
      obtain ⟨rfl, rfl⟩ := Prod.mk.inj (Option.some.inj same)
      have ready := (settled_userStackBase.setState _ p .ready).trans
        (settled_userStackBase.enqueueReady queued).1
      rw [ready a, userStackBase_setUpProcess kernel₂ stack fun here => other (congrArg some here.symm)]
      exact stacked a

end Create

/-! ## One step -/

section Step

variable {machine next : Machine A} {action : Action}

theorem userStackBase_step {alloc : Allocator A} (taken : machine.step alloc action = some next)
    (a : Addr) :
    (next.kernel.pcb a).userStackBase = (machine.kernel.pcb a).userStackBase ∨
      ∃ stack kernelStack, Creates alloc machine.kernel.getNewPid.2 a stack kernelStack next.kernel ∧
        next.control = machine.control.log (.created a) := by
  cases action with
  | createProcess e priority d t =>
      have enabled := enabled_of_step taken
      rw [Machine.Enabled] at enabled
      rw [Machine.step, if_pos enabled] at taken
      obtain ⟨⟨process, kernel⟩, ran, same⟩ := Option.bind_eq_some_iff.mp taken
      by_cases here : process = some a
      · subst here
        cases Option.some.inj same
        rcases createProcess_cases ran with ⟨clash, _⟩ | ⟨p, stack, kernelStack, made, creates⟩
        · cases clash
        · cases made
          exact Or.inr ⟨stack, kernelStack, creates, rfl⟩
      · have kept := userStackBase_createProcess ran here
        cases process with
        | none | some p =>
            cases Option.some.inj same
            exact Or.inl kept
  | start esp =>
      have enabled : machine.control.inCli = true := enabled_of_step taken
      rw [Machine.step, if_pos enabled] at taken
      obtain ⟨⟨next, kernel⟩, ran, same⟩ := Option.bind_eq_some_iff.mp taken
      cases Option.some.inj same
      exact Or.inl (settled_userStackBase.schedule ran a)
  | fork ebp =>
      obtain ⟨p, caller, taken⟩ := Option.bind_eq_some_iff.mp taken
      obtain ⟨⟨child, kernel⟩, ran, same⟩ := Option.bind_eq_some_iff.mp taken
      have kept := KeepsBases.forkSyscall ran a
      cases child with
      | none | some c =>
          cases Option.some.inj same
          exact Or.inl kept
  | yield ebp esp =>
      obtain ⟨p, caller, taken⟩ := Option.bind_eq_some_iff.mp taken
      obtain ⟨⟨next, kernel⟩, ran, same⟩ := Option.bind_eq_some_iff.mp taken
      cases Option.some.inj same
      exact Or.inl (settled_userStackBase.yieldSyscall ran a)
  | wait ebp esp =>
      obtain ⟨p, caller, taken⟩ := Option.bind_eq_some_iff.mp taken
      obtain ⟨⟨outcome, kernel⟩, ran, same⟩ := Option.bind_eq_some_iff.mp taken
      have kept := settled_userStackBase.waitSyscall ran a
      cases outcome with
      | returned result | suspended next =>
          cases Option.some.inj same
          exact Or.inl kept
  | resume =>
      obtain ⟨p, resumer, taken⟩ := Option.bind_eq_some_iff.mp taken
      obtain ⟨⟨result, kernel⟩, ran, same⟩ := Option.bind_eq_some_iff.mp taken
      cases Option.some.inj same
      exact Or.inl (settled_userStackBase.waitResumed ran a)
  | exit status esp =>
      obtain ⟨p, caller, taken⟩ := Option.bind_eq_some_iff.mp taken
      obtain ⟨⟨next, kernel⟩, ran, same⟩ := Option.bind_eq_some_iff.mp taken
      cases Option.some.inj same
      exact Or.inl (settled_userStackBase.exitSyscall ran a)
  | stateExit ebp esp =>
      obtain ⟨p, caller, taken⟩ := Option.bind_eq_some_iff.mp taken
      obtain ⟨⟨next, kernel⟩, ran, same⟩ := Option.bind_eq_some_iff.mp taken
      cases Option.some.inj same
      exact Or.inl (settled_userStackBase.stateExit ran a)

theorem Creates.stack_leaked {alloc : IsolatingAllocator A} {a stack : Addr}
    {kernelStack : Option Addr} (invariant : MachineInvariant alloc machine)
    (taken : machine.step alloc.toAllocator action = some next)
    (creates : Creates alloc.toAllocator machine.kernel.getNewPid.2 a stack kernelStack next.kernel)
    (made : next.control = machine.control.log (.created a)) : Leaked alloc next stack := by
  have new := grants_new alloc createRequests machine.kernel.allocator stack
  have different := grants_nodup alloc createRequests machine.kernel.allocator
  have granted : grants alloc.toAllocator createRequests machine.kernel.allocator =
      (a :: stack :: kernelStack.toList, next.kernel.allocator) := creates.granted
  rw [granted] at new different
  have given := new (List.mem_cons_of_mem a List.mem_cons_self)
  refine ⟨given.2, not_inTable_of_new invariant taken given.1 ?_⟩
  rw [made]
  intro same
  have named : a = stack := (List.cons.inj same).1
  exact (List.nodup_cons.mp different).1 (named ▸ List.mem_cons_self)

/-! ## Runs -/

def BasesLeaked (alloc : IsolatingAllocator A) (machine : Machine A) : Prop :=
  ∀ a, (machine.kernel.pcb a).userStackBase = 0 ∨
    Leaked alloc machine (machine.kernel.pcb a).userStackBase

theorem basesLeaked_step {alloc : IsolatingAllocator A} (invariant : MachineInvariant alloc machine)
    (bases : BasesLeaked alloc machine)
    (taken : machine.step alloc.toAllocator action = some next) : BasesLeaked alloc next := by
  intro a
  rcases userStackBase_step taken a with kept | ⟨stack, kernelStack, creates, made⟩
  · rw [kept]
    rcases bases a with zero | leaked
    · exact Or.inl zero
    · exact Or.inr (leaked.step invariant taken)
  · rw [creates.userStackBase]
    exact Or.inr (creates.stack_leaked invariant taken made)

theorem reachable_basesLeaked (alloc : IsolatingAllocator A) {machine : Machine A}
    (reachable : (processSystem alloc.toAllocator).Reachable machine) :
    BasesLeaked alloc machine := by
  have base : ∀ first, (processSystem alloc.toAllocator).initial first →
      MachineInvariant alloc first ∧ BasesLeaked alloc first := by
    intro first initial
    refine ⟨machineInvariant_initial alloc initial, fun a => Or.inl ?_⟩
    rw [Machine.Initial.pcb initial]
    rfl
  refine (System.Reachable.invariant base ?_ reachable).2
  intro before action after ⟨invariant, bases⟩ taken
  exact ⟨machineInvariant_step alloc invariant taken, basesLeaked_step invariant bases taken⟩

end Step

/-! ## The base of a forked child -/

/-- The child has recorded a stack of its own, which is a copy of the parent's `stack`, with
its pointer at the offset that the parent's has. -/
structure StackDuplicated (kernel kernel' : Kernel Heap) (parent child stack : Addr) : Prop where
  base : kernel.nextStack heapAllocator.toAllocator = some (kernel'.pcb child).userStackBase
  bytes : ∀ i, i < 4096 → kernel'.memory ((kernel'.pcb child).userStackBase + i) =
    kernel'.memory (stack + i)
  offset : (kernel'.pcb child).userStackPtr + stack =
    (kernel'.pcb parent).userStackPtr + (kernel'.pcb child).userStackBase
  lower : (kernel'.pcb child).userStackBase ≤ (kernel'.pcb child).userStackPtr
  upper : (kernel'.pcb child).userStackPtr < (kernel'.pcb child).userStackBase + 4096

/-- The stack that a fork takes was free, and is not at 0. -/
theorem nextStack_new {kernel : Kernel Heap} {stack : Addr}
    (next : kernel.nextStack heapAllocator.toAllocator = some stack) :
    ¬ HeapLive kernel.allocator stack ∧ stack ≠ 0 := by
  obtain ⟨⟨pcb, a⟩, first⟩ : ∃ r, Memory.kmalloc kernel.allocator pcbSize = r := ⟨_, rfl⟩
  have second : (Memory.kmalloc (Memory.kmalloc kernel.allocator pcbSize).2 4096).1 = some stack := next
  rw [first] at second
  have given : heapAllocator.kmalloc a 4096 = (some stack, (Memory.kmalloc a 4096).2) :=
    Prod.ext second rfl
  refine ⟨fun used => heapAllocator.fresh given (heapAllocator.keeps first used), ?_⟩
  obtain ⟨start, same, _⟩ := heapAllocator.gives given
  rw [same, pagePtr, Memory.blockHeaderSize]
  exact Nat.succ_ne_zero _

/-- What a child has recorded is never the stack it was given. -/
theorem fork_never_duplicates (machine forked : Machine Heap) (ebp : Nat) (p c stack : Addr)
    (pid : Int) (reachable : (processSystem heapAllocator.toAllocator).Reachable machine)
    (forks : machine.step heapAllocator.toAllocator (.fork ebp) = some forked)
    (child : forked.control.history = .forked p c pid :: machine.control.history) :
    ¬ StackDuplicated machine.kernel forked.kernel p c stack := by
  intro duplicated
  obtain ⟨unused, positive⟩ := nextStack_new duplicated.base
  have kept : (forked.kernel.pcb c).userStackBase = (machine.kernel.pcb c).userStackBase := by
    rcases userStackBase_step forks c with kept | ⟨_, _, _, made⟩
    · exact kept
    · rw [made] at child
      cases (List.cons.inj child).1
  rw [kept] at unused positive
  rcases reachable_basesLeaked heapAllocator reachable c with zero | leaked
  · exact positive zero
  · exact unused leaked.live

theorem exists_forked : ∃ machine forked : Machine Heap, ∃ pid,
    (processSystem heapAllocator.toAllocator).Reachable machine ∧
    machine.step heapAllocator.toAllocator (.fork 8188) = some forked ∧
    forked.control.history = .forked 8 20488 pid :: machine.control.history ∧
    machine.kernel.nextStack heapAllocator.toAllocator = some 24584 ∧
    (forked.kernel.pcb 20488).userStackBase = 0 := by
  have runs : ((processSystem heapAllocator.toAllocator).record bootMachine
      [.createProcess 0 1 1 2, .start 0]).any fun run =>
        (run.2.step heapAllocator.toAllocator (.fork 8188)).any fun forked =>
          decide (run.2.control.born = [8] ∧ forked.control.born = [20488, 8] ∧
            run.2.caller = some 8 ∧
            run.2.kernel.nextStack heapAllocator.toAllocator = some 24584 ∧
            (forked.kernel.pcb 20488).userStackBase = 0) := by
    decide +kernel
  obtain ⟨⟨trace, machine⟩, recorded, checked⟩ := (Option.any_eq_true ..).mp runs
  obtain ⟨forked, forks, checked⟩ := (Option.any_eq_true ..).mp checked
  obtain ⟨born, born', caller, next, base⟩ := of_decide_eq_true checked
  have logged := fork_logged forks caller (born'.trans (congrArg (List.cons 20488) born).symm)
  exact ⟨machine, forked, _, ⟨bootMachine, trace, bootMachine_initial,
    System.trace_of_record recorded⟩, forks, logged, next, base⟩

theorem fork_never_duplicates_first : ∃ machine forked : Machine Heap,
    machine.step heapAllocator.toAllocator (.fork 8188) = some forked ∧
      ¬ StackDuplicated machine.kernel forked.kernel 8 20488 4104 := by
  obtain ⟨machine, forked, pid, reachable, forks, child, _⟩ := exists_forked
  exact ⟨machine, forked, forks,
    fork_never_duplicates machine forked 8188 8 20488 4104 pid reachable forks child⟩

/-- The first fork after boot already leaves 0 in the field. -/
theorem first_fork_records_nothing : ¬ ∀ (machine forked : Machine Heap) (ebp : Nat)
    (p c : Addr) (pid : Int), (processSystem heapAllocator.toAllocator).Reachable machine →
      machine.step heapAllocator.toAllocator (.fork ebp) = some forked →
      forked.control.history = .forked p c pid :: machine.control.history →
      ∃ stack, StackDuplicated machine.kernel forked.kernel p c stack := by
  intro always
  obtain ⟨machine, forked, pid, reachable, forks, child, next, base⟩ := exists_forked
  obtain ⟨stack, duplicated⟩ := always machine forked 8188 8 20488 pid reachable forks child
  have recorded := duplicated.base
  rw [next, base] at recorded
  exact absurd (Option.some.inj recorded) (by decide)

end ApnaOS.Process
