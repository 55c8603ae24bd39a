import ApnaOS.Process.Simulation

/-!
# Fields that a function leaves alone

Queues, table and scheduler write a few fields of a PCB.  Every other field of every
process is the same afterwards.
-/

set_option autoImplicit false

namespace ApnaOS.Process

variable {A β : Type}

def KeepsField (field : Pcb → β) (kernel kernel' : Kernel A) : Prop :=
  ∀ a, field (kernel'.pcb a) = field (kernel.pcb a)

namespace KeepsField

variable {field : Pcb → β} {kernel middle kernel' : Kernel A}

theorem refl (kernel : Kernel A) : KeepsField field kernel kernel := fun _ => rfl

theorem trans (first : KeepsField field kernel middle) (second : KeepsField field middle kernel') :
    KeepsField field kernel kernel' := fun a => (second a).trans (first a)

theorem modify (kernel : Kernel A) (p : Addr) (change : Pcb → Pcb)
    (keeps : ∀ pcb, field (change pcb) = field pcb) :
    KeepsField field kernel (kernel.modify p change) := by
  intro a
  rw [pcb_modify]
  by_cases same : a = p
  · rw [if_pos same, keeps, same]
  · rw [if_neg same]

end KeepsField

theorem enqueueReady_only {kernel kernel' : Kernel A} {fuel : Nat} {p : Addr}
    (ran : kernel.enqueueReady fuel p = some kernel') :
    OnlyNext kernel.pcb kernel'.pcb ∧ kernel'.allocator = kernel.allocator ∧
      kernel'.memory = kernel.memory ∧ kernel'.currentProcess = kernel.currentProcess := by
  obtain ⟨⟨pcb, queue⟩, enqueued, same⟩ := Option.bind_eq_some_iff.mp ran
  rw [← Option.some.inj same]
  exact ⟨enqueueBy_only enqueued, rfl, rfl, rfl⟩

/-! ## Queues and table -/

structure Unlinked (field : Pcb → β) : Prop where
  state : ∀ pcb state, field { pcb with state := state } = field pcb
  next : ∀ pcb next, field { pcb with next := next } = field pcb
  nextInTable : ∀ pcb after, field { pcb with nextInTable := after } = field pcb

namespace Unlinked

variable {field : Pcb → β} {kernel kernel' : Kernel A} {fuel : Nat} {p : Addr}

theorem setState (unlinked : Unlinked field) (kernel : Kernel A) (p : Addr) (state : ProcessState) :
    KeepsField field kernel (kernel.setState p state) :=
  .modify kernel p _ fun pcb => unlinked.state pcb state

theorem onlyNext (unlinked : Unlinked field) (only : OnlyNext kernel.pcb kernel'.pcb) :
    KeepsField field kernel kernel' := only.field field unlinked.next

theorem enqueueReady (unlinked : Unlinked field) (ran : kernel.enqueueReady fuel p = some kernel') :
    KeepsField field kernel kernel' ∧ kernel'.currentProcess = kernel.currentProcess :=
  ⟨unlinked.onlyNext (enqueueReady_only ran).1, (enqueueReady_only ran).2.2.2⟩

theorem preempt (unlinked : Unlinked field) (ran : preempt fuel kernel = some kernel') :
    KeepsField field kernel kernel' ∧ kernel'.currentProcess = kernel.currentProcess := by
  rw [Process.preempt] at ran
  split at ran
  · rw [← Option.some.inj ran]
    exact ⟨.refl kernel, rfl⟩
  · split at ran
    · obtain ⟨kept, current⟩ := unlinked.enqueueReady ran
      exact ⟨(unlinked.setState kernel _ .ready).trans kept, current⟩
    · rw [← Option.some.inj ran]
      exact ⟨.refl kernel, rfl⟩

theorem wakeParent (unlinked : Unlinked field) (ran : wakeParent fuel kernel p = some kernel') :
    KeepsField field kernel kernel' ∧ kernel'.currentProcess = kernel.currentProcess := by
  rw [Process.wakeParent] at ran
  split at ran
  · rw [← Option.some.inj ran]
    exact ⟨.refl kernel, rfl⟩
  · split at ran
    · obtain ⟨kept, current⟩ := unlinked.enqueueReady ran
      exact ⟨(unlinked.setState kernel _ .ready).trans kept, current⟩
    · rw [← Option.some.inj ran]
      exact ⟨.refl kernel, rfl⟩

theorem unlinkAfter (unlinked : Unlinked field) (kernel : Kernel A) (prev : Option Addr)
    (child : Addr) :
    KeepsField field kernel (unlinkAfter kernel prev child) ∧
      (Process.unlinkAfter kernel prev child).currentProcess = kernel.currentProcess := by
  unfold Process.unlinkAfter
  cases prev with
  | none => exact ⟨.refl kernel, rfl⟩
  | some prev => exact ⟨.modify kernel prev _ fun pcb => unlinked.nextInTable pcb _, rfl⟩

theorem findZombie (unlinked : Unlinked field) {prev current found : Option Addr}
    (ran : findZombie kernel p fuel prev current = some (found, kernel')) :
    KeepsField field kernel kernel' ∧ kernel'.currentProcess = kernel.currentProcess := by
  induction fuel generalizing prev current with
  | zero => cases ran
  | succ fuel ih =>
      cases current with
      | none =>
          simp only [Process.findZombie, Option.some.injEq, Prod.mk.injEq] at ran
          rw [← ran.2]
          exact ⟨.refl kernel, rfl⟩
      | some child =>
          rw [Process.findZombie] at ran
          split at ran
          · simp only [Option.some.injEq, Prod.mk.injEq] at ran
            rw [← ran.2]
            exact unlinked.unlinkAfter kernel prev child
          · exact ih ran

end Unlinked

/-! ## The scheduler and the system calls -/

structure Settled (field : Pcb → β) : Prop extends Unlinked field where
  userStackPtr : ∀ pcb ebp, field { pcb with userStackPtr := ebp } = field pcb
  kernelStackPtr : ∀ pcb esp, field { pcb with kernelStackPtr := esp } = field pcb
  isNewChild : ∀ pcb isNew, field { pcb with isNewChild := isNew } = field pcb
  exitStatus : ∀ pcb status, field { pcb with exitStatus := status } = field pcb

namespace Settled

variable {field : Pcb → β} {kernel kernel' : Kernel A} {alloc : Allocator A}
  {fuel ebp esp : Nat} {p : Addr}

theorem saveKernelStackPtr (settled : Settled field) (kernel : Kernel A) (esp : Nat) :
    KeepsField field kernel (saveKernelStackPtr kernel esp) := by
  unfold Process.saveKernelStackPtr
  split
  · exact .refl kernel
  · exact .modify kernel _ _ fun pcb => settled.kernelStackPtr pcb esp

theorem dispatch (settled : Settled field) (kernel : Kernel A) (esp : Nat) :
    KeepsField field kernel (dispatch esp kernel).2 := by
  have only := dequeueProcess_only kernel.pcb kernel.readyQueue
  unfold Process.dispatch
  obtain ⟨⟨process, pcb, queue⟩, dequeued⟩ : ∃ r, dequeueProcess kernel.pcb kernel.readyQueue = r :=
    ⟨_, rfl⟩
  rw [dequeued] at only ⊢
  have taken : KeepsField field kernel { kernel with pcb := pcb, readyQueue := queue } :=
    settled.onlyNext only
  cases process with
  | none => exact taken
  | some next =>
      have saved := (taken.trans (settled.setState _ next .running)).trans
        (settled.saveKernelStackPtr _ esp)
      dsimp only
      split
      · exact saved.trans (.modify _ next _ fun pcb => settled.isNewChild pcb false)
      · exact saved

theorem schedule (settled : Settled field) {next : Option Addr}
    (ran : schedule fuel esp kernel = some (next, kernel')) : KeepsField field kernel kernel' := by
  obtain ⟨middle, preempted, dispatched⟩ := Option.bind_eq_some_iff.mp ran
  have moved := (settled.preempt preempted).1.trans (settled.dispatch middle esp)
  rw [Option.some.inj dispatched] at moved
  exact moved

theorem yieldSyscall (settled : Settled field) {next : Option Addr}
    (ran : yieldSyscall fuel ebp esp kernel p = some (next, kernel')) :
    KeepsField field kernel kernel' := by
  have saved : KeepsField field kernel (kernel.modify p fun pcb => { pcb with userStackPtr := ebp }) :=
    .modify kernel p _ fun pcb => settled.userStackPtr pcb ebp
  exact saved.trans (settled.schedule ran)

theorem waitSyscall (settled : Settled field) {outcome : WaitOutcome}
    (ran : waitSyscall alloc fuel ebp esp kernel p = some (outcome, kernel')) :
    KeepsField field kernel kernel' := by
  obtain ⟨⟨found, kernel₁⟩, searched, ran⟩ := Option.bind_eq_some_iff.mp ran
  have unlinked : KeepsField field kernel kernel₁ := (settled.findZombie searched).1
  cases found with
  | some child =>
      obtain ⟨_, rfl⟩ := Prod.mk.inj (Option.some.inj ran)
      exact unlinked
  | none =>
      obtain ⟨⟨next, kernel₂⟩, yielded, same⟩ := Option.bind_eq_some_iff.mp ran
      obtain ⟨_, rfl⟩ := Prod.mk.inj (Option.some.inj same)
      exact (unlinked.trans (settled.setState kernel₁ p .blocked)).trans
        (settled.yieldSyscall yielded)

theorem waitResumed (settled : Settled field) {result : WaitResult}
    (ran : waitResumed alloc fuel kernel p = some (result, kernel')) :
    KeepsField field kernel kernel' := by
  obtain ⟨⟨found, kernel₁⟩, searched, ran⟩ := Option.bind_eq_some_iff.mp ran
  have unlinked : KeepsField field kernel kernel₁ := (settled.findZombie searched).1
  cases found with
  | some child | none =>
      obtain ⟨_, rfl⟩ := Prod.mk.inj (Option.some.inj ran)
      exact unlinked

theorem exitSyscall (settled : Settled field) {status : Int} {next : Option Addr}
    (ran : exitSyscall fuel esp kernel p status = some (next, kernel')) :
    KeepsField field kernel kernel' := by
  obtain ⟨kernel₁, woken, scheduled⟩ := Option.bind_eq_some_iff.mp ran
  have left : KeepsField field kernel
      (kernel.modify p fun pcb => { pcb with exitStatus := status, state := .zombie }) :=
    .modify kernel p _ fun pcb =>
      (settled.state { pcb with exitStatus := status } .zombie).trans (settled.exitStatus pcb status)
  exact (left.trans (settled.wakeParent woken).1).trans (settled.schedule scheduled)

theorem stateExit (settled : Settled field) {next : Option Addr}
    (ran : stateExit fuel ebp esp kernel p = some (next, kernel')) :
    KeepsField field kernel kernel' :=
  (settled.setState kernel p .exit).trans (settled.yieldSyscall ran)

end Settled

end ApnaOS.Process
