import ApnaOS.Process.Allocators
import ApnaOS.Process.Linked
import ApnaOS.Process.Scheduling

/-!
# The kernel refines the model

When a kernel state shows a state of the model, and that every function of the
kernel then terminates and does what the model does.
-/

set_option autoImplicit false

namespace ApnaOS.Process

open ApnaOS.Lib
open Function (update update_self update_of_ne)

variable {A : Type}

def PcbMemory.nextInTable (pcb : PcbMemory) (a : Addr) : Option Addr := (pcb a).nextInTable

structure Refines (kernel : Kernel A) (processes : Processes) : Prop where
  queue : IsQueue kernel.pcb kernel.readyQueue processes.ready
  table : Chain kernel.pcb.nextInTable kernel.processTableHead processes.table none
  proc : ∀ a, (kernel.pcb a).proc = processes.proc a
  current : kernel.currentProcess = processes.current
  nextPid : kernel.nextPid = processes.nextPid
  pidAtNull : kernel.pidAtNull = processes.pidAtNull

theorem pcb_modify (kernel : Kernel A) (p a : Addr) (change : Pcb → Pcb) :
    (kernel.modify p change).pcb a = if a = p then change (kernel.pcb a) else kernel.pcb a := by
  by_cases same : a = p
  · simp [Kernel.modify, PcbMemory.modify, same]
  · simp [Kernel.modify, PcbMemory.modify, same]

theorem nextInTable_modify (kernel : Kernel A) (p : Addr) (after : Option Addr) :
    (kernel.modify p fun pcb => { pcb with nextInTable := after }).pcb.nextInTable =
      update kernel.pcb.nextInTable p after := by
  funext a
  rw [PcbMemory.nextInTable, pcb_modify]
  by_cases same : a = p
  · simp [same]
  · simp [same, PcbMemory.nextInTable]

namespace Refines

variable {kernel : Kernel A} {processes : Processes} {p : Addr}

theorem state_eq (refines : Refines kernel processes) (a : Addr) :
    (kernel.pcb a).state = processes.state a := congrArg Proc.state (refines.proc a)

theorem parent_eq (refines : Refines kernel processes) (a : Addr) :
    (kernel.pcb a).parent = processes.parent a := congrArg Proc.parent (refines.proc a)

theorem allocate (refines : Refines kernel processes) (a : A) :
    Refines { kernel with allocator := a } processes :=
  ⟨refines.queue, refines.table, refines.proc, refines.current, refines.nextPid,
    refines.pidAtNull⟩

theorem modify (refines : Refines kernel processes) (p : Addr) (change : Pcb → Pcb)
    (change' : Proc → Proc)
    (queued : p ∈ processes.ready → (change (kernel.pcb p)).next = (kernel.pcb p).next)
    (present : p ∈ processes.table →
      (change (kernel.pcb p)).nextInTable = (kernel.pcb p).nextInTable)
    (shows : ∀ pcb, (change pcb).proc = change' pcb.proc) :
    Refines (kernel.modify p change) (processes.modify p change') := by
  refine ⟨⟨refines.queue.chain.congr ?_, refines.queue.rear⟩, refines.table.congr ?_, ?_,
    refines.current, refines.nextPid, refines.pidAtNull⟩
  · intro a member
    rw [PcbMemory.next, pcb_modify]
    split
    · next same =>
        subst same
        exact queued member
    · rfl
  · intro a member
    rw [PcbMemory.nextInTable, pcb_modify]
    split
    · next same =>
        subst same
        exact present member
    · rfl
  · intro a
    rw [pcb_modify, Processes.proc_modify]
    split
    · rw [shows, refines.proc]
    · exact refines.proc a

theorem modify_id (processes : Processes) (p : Addr) : processes.modify p id = processes := by
  simp [Processes.modify]

theorem hide (refines : Refines kernel processes) (p : Addr) (change : Pcb → Pcb)
    (next : ∀ pcb, (change pcb).next = pcb.next)
    (nextInTable : ∀ pcb, (change pcb).nextInTable = pcb.nextInTable)
    (shows : ∀ pcb, (change pcb).proc = pcb.proc) : Refines (kernel.modify p change) processes := by
  have written := refines.modify p change id (fun _ => next _) (fun _ => nextInTable _) shows
  rwa [modify_id] at written

theorem setState (refines : Refines kernel processes) (p : Addr) (state : ProcessState) :
    Refines (kernel.setState p state) (processes.setState p state) :=
  refines.modify p _ _ (fun _ => rfl) (fun _ => rfl) (fun _ => rfl)

theorem enqueueReady (refines : Refines kernel processes) (nodup : processes.ready.Nodup)
    (absent : p ∉ processes.ready) {fuel : Nat} (enough : processes.ready.length ≤ fuel) :
    ∃ kernel', kernel.enqueueReady fuel p = some kernel' ∧
      Refines kernel' (processes.enqueue p) ∧ kernel'.allocator = kernel.allocator := by
  obtain ⟨pcb', queue', ran, only, isQueue⟩ := enqueueBy_spec Pcb.priority (fun _ _ => rfl) fuel
    refines.queue nodup absent enough
  have keys : (fun a => (kernel.pcb a).priority) = processes.priority := by
    funext a
    exact congrArg Proc.priority (refines.proc a)
  rw [keys] at isQueue
  refine ⟨{ kernel with pcb := pcb', readyQueue := queue' }, ?_, ?_, rfl⟩
  · simp only [Kernel.enqueueReady, enqueueProcess, ran, Option.bind_eq_bind, Option.bind_some]
  · refine ⟨isQueue, refines.table.congr ?_, ?_, refines.current, refines.nextPid,
      refines.pidAtNull⟩
    · intro a _
      exact only.field Pcb.nextInTable (fun _ _ => rfl) a
    · intro a
      exact (only.field Pcb.proc (fun _ _ => rfl) a).trans (refines.proc a)

theorem makeReady (refines : Refines kernel processes) (sound : processes.Sound)
    (other : processes.state p ≠ .ready) {fuel : Nat} (enough : processes.table.length ≤ fuel) :
    ∃ kernel', (kernel.setState p .ready).enqueueReady fuel p = some kernel' ∧
      Refines kernel' ((processes.setState p .ready).enqueue p) ∧
      kernel'.allocator = kernel.allocator :=
  (refines.setState p .ready).enqueueReady sound.ready_nodup (sound.not_ready other)
    (sound.length_ready.trans enough)

theorem preempt (refines : Refines kernel processes) (sound : processes.Sound) {fuel : Nat}
    (enough : processes.table.length ≤ fuel) :
    ∃ kernel', preempt fuel kernel = some kernel' ∧ Refines kernel' processes.preempt ∧
      kernel'.allocator = kernel.allocator := by
  rcases processes.preempt_cases with ⟨same, rests⟩ | ⟨p, current, runs, queued⟩
  · rw [same]
    refine ⟨kernel, ?_, refines, rfl⟩
    rw [Process.preempt, refines.current]
    cases current : processes.current with
    | none => rfl
    | some p => simp only [refines.state_eq, rests p current, if_false]
  · obtain ⟨kernel', ran, refines', allocator⟩ :=
      refines.makeReady (p := p) sound (by simp [runs]) enough
    refine ⟨kernel', ?_, queued ▸ refines', allocator⟩
    simp only [Process.preempt, refines.current, current, refines.state_eq, runs, if_true, ran]

theorem saveKernelStackPtr (refines : Refines kernel processes) (esp : Nat) :
    Refines (saveKernelStackPtr kernel esp) processes := by
  unfold Process.saveKernelStackPtr
  split
  · exact refines
  · exact refines.hide _ _ (fun _ => rfl) (fun _ => rfl) (fun _ => rfl)

theorem allocator_saveKernelStackPtr (kernel : Kernel A) (esp : Nat) :
    (Process.saveKernelStackPtr kernel esp).allocator = kernel.allocator := by
  unfold Process.saveKernelStackPtr
  split <;> rfl

theorem dispatch (refines : Refines kernel processes) (nodup : processes.ready.Nodup) (esp : Nat) :
    (dispatch esp kernel).1 = processes.dispatch.1 ∧
      Refines (dispatch esp kernel).2 processes.dispatch.2 ∧
      (dispatch esp kernel).2.allocator = kernel.allocator := by
  obtain ⟨pcb', queue', ran, only, isQueue⟩ := dequeueProcess_spec refines.queue nodup
  have dequeued : Refines { kernel with pcb := pcb', readyQueue := queue' }
      { processes with ready := processes.ready.tail } := by
    refine ⟨isQueue, refines.table.congr ?_, ?_, refines.current, refines.nextPid,
      refines.pidAtNull⟩
    · intro a _
      exact only.field Pcb.nextInTable (fun _ _ => rfl) a
    · intro a
      exact (only.field Pcb.proc (fun _ _ => rfl) a).trans (refines.proc a)
  rcases processes.dispatch_cases with ⟨empty, same⟩ | ⟨p, rest, queue, given⟩
  · rw [empty] at ran dequeued
    have left : { processes with ready := [].tail } = processes := by rw [List.tail_nil, ← empty]
    rw [left] at dequeued
    simp only [Process.dispatch, ran, List.head?_nil, same]
    exact ⟨trivial, dequeued, trivial⟩
  · rw [queue] at ran dequeued
    simp only [Process.dispatch, ran, List.head?_cons, given]
    have running := (dequeued.setState p .running).saveKernelStackPtr esp
    refine ⟨trivial, ?_, ?_⟩
    · split
      · have known := running.hide p (fun pcb => { pcb with isNewChild := false })
          (fun _ => rfl) (fun _ => rfl) (fun _ => rfl)
        exact ⟨known.queue, known.table, known.proc, rfl, known.nextPid, known.pidAtNull⟩
      · exact ⟨running.queue, running.table, running.proc, rfl, running.nextPid,
          running.pidAtNull⟩
    · split
      · exact allocator_saveKernelStackPtr _ esp
      · exact allocator_saveKernelStackPtr _ esp

theorem schedule (refines : Refines kernel processes) (sound : processes.Sound) {fuel : Nat}
    (esp : Nat) (enough : processes.table.length ≤ fuel) :
    ∃ kernel', schedule fuel esp kernel = some (processes.schedule.1, kernel') ∧
      Refines kernel' processes.schedule.2 ∧ kernel'.allocator = kernel.allocator := by
  obtain ⟨kernel₁, preempted, refines₁, allocator₁⟩ := refines.preempt sound enough
  obtain ⟨given, refines₂, allocator₂⟩ := refines₁.dispatch sound.preempt.ready_nodup esp
  refine ⟨(Process.dispatch esp kernel₁).2, ?_, refines₂, allocator₂.trans allocator₁⟩
  simp only [Process.schedule, preempted, Option.bind_eq_bind, Option.bind_some,
    Processes.schedule, ← given]

theorem yieldSyscall (refines : Refines kernel processes) (sound : processes.Sound) (p : Addr)
    {fuel : Nat} (ebp esp : Nat) (enough : processes.table.length ≤ fuel) :
    ∃ kernel', yieldSyscall fuel ebp esp kernel p = some (processes.schedule.1, kernel') ∧
      Refines kernel' processes.schedule.2 ∧ kernel'.allocator = kernel.allocator :=
  (refines.hide p (fun pcb => { pcb with userStackPtr := ebp }) (fun _ => rfl) (fun _ => rfl)
    (fun _ => rfl)).schedule sound esp enough

theorem wakeParent (refines : Refines kernel processes) (sound : processes.Sound) (p : Addr)
    {fuel : Nat} (enough : processes.table.length ≤ fuel) :
    ∃ kernel', wakeParent fuel kernel p = some kernel' ∧
      Refines kernel' (processes.wakeParent p) ∧ kernel'.allocator = kernel.allocator := by
  rcases processes.wakeParent_cases p with ⟨same, rests⟩ | ⟨q, parent, blocks, woken⟩
  · rw [same]
    refine ⟨kernel, ?_, refines, rfl⟩
    rw [Process.wakeParent, refines.parent_eq]
    cases parent : processes.parent p with
    | none => rfl
    | some q => simp only [refines.state_eq, rests q parent, if_false]
  · obtain ⟨kernel', ran, refines', allocator⟩ :=
      refines.makeReady (p := q) sound (by simp [blocks]) enough
    refine ⟨kernel', ?_, woken ▸ refines', allocator⟩
    simp only [Process.wakeParent, refines.parent_eq, parent, refines.state_eq, blocks, if_true,
      ran]

theorem exitSyscall (refines : Refines kernel processes) (sound : processes.Sound)
    (present : p ∈ processes.table) (runs : processes.state p = .running) {fuel : Nat}
    (esp : Nat) (status : Int) (enough : processes.table.length ≤ fuel) :
    ∃ kernel', exitSyscall fuel esp kernel p status =
        some ((processes.exit p status).schedule.1, kernel') ∧
      Refines kernel' (processes.exit p status).schedule.2 ∧
      kernel'.allocator = kernel.allocator := by
  have dead : Refines
      (kernel.modify p fun pcb => { pcb with exitStatus := status, state := .zombie })
      (processes.die p status) := by
    rw [Processes.die, Processes.setExitStatus, Processes.setState, Processes.modify_modify]
    exact refines.modify p _ _ (fun _ => rfl) (fun _ => rfl) (fun _ => rfl)
  obtain ⟨kernel₁, woke, refines₁, allocator₁⟩ :=
    dead.wakeParent (sound.die present runs status) p enough
  have enough' : (processes.exit p status).table.length ≤ fuel := by
    rw [Processes.table_exit]
    exact enough
  obtain ⟨kernel₂, ran, refines₂, allocator₂⟩ :=
    refines₁.schedule (sound.exit present runs status) esp enough'
  refine ⟨kernel₂, ?_, refines₂, allocator₂.trans allocator₁⟩
  simp only [Process.exitSyscall, woke, Option.bind_eq_bind, Option.bind_some, ran]
  rfl

/-! ## Searching the process table -/

theorem pidOf_eq (refines : Refines kernel processes) (p : Option Addr) :
    kernel.pidOf p = processes.pidOf p := by
  cases p with
  | none => exact refines.pidAtNull
  | some p => exact congrArg Proc.pid (refines.proc p)

theorem test_iff (refines : Refines kernel processes) (p child : Addr) :
    (kernel.pidOf (kernel.pcb child).parent = (kernel.pcb p).pid ∧
      (kernel.pcb child).state = .zombie) ↔ processes.isZombieChild p child = true := by
  have pid : (kernel.pcb p).pid = (processes.proc p).pid := congrArg Proc.pid (refines.proc p)
  rw [Processes.isZombieChild, decide_eq_true_iff, refines.pidOf_eq, refines.parent_eq,
    refines.state_eq, pid]

theorem allocator_unlinkAfter (kernel : Kernel A) (prev : Option Addr) (child : Addr) :
    (unlinkAfter kernel prev child).allocator = kernel.allocator := by
  unfold unlinkAfter
  split <;> rfl

theorem unlinkAfter (refines : Refines kernel processes) (nodup : processes.table.Nodup)
    {front back : List Addr} {child : Addr} (split : processes.table = front ++ child :: back) :
    Refines (unlinkAfter kernel front.getLast? child) (processes.unlink child) := by
  have absent : child ∉ front := by
    rw [split] at nodup
    exact fun member => (List.nodup_append.mp nodup).2.2 child member child List.mem_cons_self rfl
  have erased : (processes.unlink child).table = front ++ back := by
    rw [Processes.unlink, split, List.erase_append_right _ absent, List.erase_cons_head]
  have table := refines.table
  rw [split] at table nodup
  rcases List.eq_nil_or_concat' front with empty | ⟨before, prev, last⟩
  · subst empty
    refine ⟨refines.queue, ?_, refines.proc, refines.current, refines.nextPid, refines.pidAtNull⟩
    rw [erased]
    exact table.2
  · subst last
    rw [List.getLast?_concat]
    rw [List.append_assoc, List.singleton_append] at table nodup
    refine ⟨⟨refines.queue.chain.congr ?_, refines.queue.rear⟩, ?_, ?_, refines.current,
      refines.nextPid, refines.pidAtNull⟩
    · intro a _
      rw [PcbMemory.next, Process.unlinkAfter, pcb_modify]
      split <;> rfl
    · rw [erased, Process.unlinkAfter, nextInTable_modify, List.append_assoc,
        List.singleton_append]
      exact table.remove_after nodup
    · intro a
      rw [Process.unlinkAfter, pcb_modify]
      split
      · exact refines.proc a
      · exact refines.proc a

theorem findZombie_spec (refines : Refines kernel processes) (nodup : processes.table.Nodup)
    (p : Addr) (front rest : List Addr) (fuel : Nat) (split : processes.table = front ++ rest)
    (enough : rest.length < fuel) :
    ∃ kernel', findZombie kernel p fuel front.getLast? rest.head? =
        some (rest.find? (processes.isZombieChild p), kernel') ∧
      Refines kernel' ((rest.find? (processes.isZombieChild p)).elim processes processes.unlink) ∧
      kernel'.allocator = kernel.allocator := by
  induction rest generalizing fuel front with
  | nil =>
      obtain ⟨m, rfl⟩ : ∃ m, fuel = m + 1 := ⟨fuel - 1, by omega⟩
      exact ⟨kernel, rfl, refines, rfl⟩
  | cons child rest ih =>
      obtain ⟨m, rfl⟩ : ∃ m, fuel = m + 1 := ⟨fuel - 1, by omega⟩
      by_cases zombie : processes.isZombieChild p child
      · refine ⟨Process.unlinkAfter kernel front.getLast? child, ?_, ?_, ?_⟩
        · rw [List.find?_cons_of_pos zombie, List.head?_cons, findZombie,
            if_pos ((refines.test_iff p child).mpr zombie)]
        · rw [List.find?_cons_of_pos zombie]
          exact refines.unlinkAfter nodup split
        · exact allocator_unlinkAfter _ _ _
      · have table := refines.table
        rw [split] at table
        have next : (kernel.pcb child).nextInTable = rest.head? := table.next_eq
        have split' : processes.table = (front ++ [child]) ++ rest := by
          rw [split, List.append_assoc, List.singleton_append]
        have searched := ih (front ++ [child]) m split' (by rw [List.length_cons] at enough; omega)
        rw [List.getLast?_concat] at searched
        rw [List.find?_cons_of_neg zombie, List.head?_cons, findZombie,
          if_neg fun test => zombie ((refines.test_iff p child).mp test), next]
        exact searched

theorem findZombieChild (refines : Refines kernel processes) (nodup : processes.table.Nodup)
    (p : Addr) {fuel : Nat} (enough : processes.table.length < fuel) :
    ∃ kernel', findZombieChild fuel kernel p = some (processes.zombieChild p, kernel') ∧
      Refines kernel' ((processes.zombieChild p).elim processes processes.unlink) ∧
      kernel'.allocator = kernel.allocator := by
  rw [Process.findZombieChild, refines.table.start_eq]
  exact refines.findZombie_spec nodup p [] processes.table fuel rfl enough

/-! ## Waiting -/

theorem reap (refines : Refines kernel processes) (alloc : Allocator A) (child : Addr) :
    reap alloc kernel child = (processes.collected child, kernel.kfree alloc (some child)) := by
  have pid : (kernel.pcb child).pid = (processes.proc child).pid :=
    congrArg Proc.pid (refines.proc child)
  have status : (kernel.pcb child).exitStatus = (processes.proc child).exitStatus :=
    congrArg Proc.exitStatus (refines.proc child)
  rw [Process.reap, pid, status, Processes.collected]

theorem waitSyscall_returns (refines : Refines kernel processes) (nodup : processes.table.Nodup)
    (alloc : Allocator A) {child : Addr} {fuel : Nat} (ebp esp : Nat)
    (enough : processes.table.length < fuel) (found : processes.zombieChild p = some child) :
    ∃ kernel', waitSyscall alloc fuel ebp esp kernel p =
        some (.returned (processes.collected child), kernel') ∧
      Refines kernel' (processes.unlink child) ∧
      kernel'.allocator = alloc.kfree kernel.allocator (some child) := by
  obtain ⟨kernel', ran, refines', allocator⟩ := refines.findZombieChild nodup p enough
  rw [found] at ran refines'
  refine ⟨kernel'.kfree alloc (some child), ?_, refines'.allocate _, ?_⟩
  · simp only [waitSyscall, ran, Option.bind_eq_bind, Option.bind_some, refines'.reap]
    rfl
  · rw [← allocator]
    rfl

theorem waitSyscall_suspends (refines : Refines kernel processes) (sound : processes.Sound)
    (alloc : Allocator A) {fuel : Nat} (ebp esp : Nat) (present : p ∈ processes.table)
    (runs : processes.state p = .running) (enough : processes.table.length < fuel)
    (none_found : processes.zombieChild p = none) :
    ∃ kernel', waitSyscall alloc fuel ebp esp kernel p =
        some (.suspended (processes.setState p .blocked).schedule.1, kernel') ∧
      Refines kernel' (processes.setState p .blocked).schedule.2 ∧
      kernel'.allocator = kernel.allocator := by
  obtain ⟨kernel₁, ran₁, refines₁, allocator₁⟩ := refines.findZombieChild sound.table_nodup p enough
  rw [none_found] at ran₁ refines₁
  rw [Option.elim_none] at refines₁
  have sound' := sound.block present runs
  obtain ⟨kernel₂, ran₂, refines₂, allocator₂⟩ :=
    (refines₁.setState p .blocked).yieldSyscall sound' p ebp esp (Nat.le_of_lt enough)
  refine ⟨kernel₂, ?_, refines₂, allocator₂.trans allocator₁⟩
  simp only [waitSyscall, ran₁, Option.bind_eq_bind, Option.bind_some, ran₂]

theorem waitResumed (refines : Refines kernel processes) (nodup : processes.table.Nodup)
    (alloc : Allocator A) {fuel : Nat} (p : Addr) (enough : processes.table.length < fuel) :
    (∃ child kernel', processes.zombieChild p = some child ∧
      waitResumed alloc fuel kernel p = some (processes.collected child, kernel') ∧
      Refines kernel' (processes.unlink child) ∧
      kernel'.allocator = alloc.kfree kernel.allocator (some child)) ∨
    ∃ kernel', processes.zombieChild p = none ∧
      waitResumed alloc fuel kernel p = some (⟨-1, none, none⟩, kernel') ∧
      Refines kernel' processes ∧ kernel'.allocator = kernel.allocator := by
  obtain ⟨kernel', ran, refines', allocator⟩ := refines.findZombieChild nodup p enough
  cases found : processes.zombieChild p with
  | none =>
      rw [found] at ran refines'
      refine Or.inr ⟨kernel', rfl, ?_, refines', allocator⟩
      simp only [Process.waitResumed, ran, Option.bind_eq_bind, Option.bind_some]
  | some child =>
      rw [found] at ran refines'
      refine Or.inl ⟨child, kernel'.kfree alloc (some child), rfl, ?_, refines'.allocate _, ?_⟩
      · simp only [Process.waitResumed, ran, Option.bind_eq_bind, Option.bind_some,
          refines'.reap]
        rfl
      · rw [← allocator]
        rfl

/-! ## New processes -/

theorem write (refines : Refines kernel processes) (sound : processes.Sound)
    (fresh : p ∉ processes.table) (change : Pcb → Pcb) (change' : Proc → Proc)
    (shows : ∀ pcb, (change pcb).proc = change' pcb.proc) :
    Refines (kernel.modify p change) (processes.modify p change') := by
  refine refines.modify p change change' ?_ ?_ shows
  · intro queued
    exact absurd ((sound.ready_iff p).mp queued).1 fresh
  · intro present
    exact absurd present fresh

theorem push (refines : Refines kernel processes)
    (linked : (kernel.pcb p).nextInTable = kernel.processTableHead) :
    Refines { kernel with processTableHead := some p }
      { processes with table := p :: processes.table } := by
  refine ⟨refines.queue, ⟨rfl, ?_⟩, refines.proc, refines.current, refines.nextPid,
    refines.pidAtNull⟩
  rw [PcbMemory.nextInTable, linked]
  exact refines.table

theorem countPid (refines : Refines kernel processes) :
    Refines kernel.getNewPid.2 processes.countPid :=
  ⟨refines.queue, refines.table, refines.proc, refines.current,
    congrArg (· + 1) refines.nextPid, refines.pidAtNull⟩

end Refines

theorem kmalloc_eq (kernel : Kernel A) {alloc : Allocator A} {size : UInt32} {r : Option Addr}
    {a : A} (given : alloc.kmalloc kernel.allocator size = (r, a)) :
    kernel.kmalloc alloc size = (r, { kernel with allocator := a }) := by
  simp only [Kernel.kmalloc, given]

theorem enter_eq (processes : Processes) (p : Addr) : processes.enter p =
    ({ processes.setState p .ready with table := p :: processes.table } : Processes).enqueue p := by
  simp [Processes.enter, Processes.enroll, Processes.setState, Processes.modify]

theorem enter_modify (processes : Processes) (p : Addr) (change : Proc → Proc)
    (state : Proc → ProcessState) : (processes.modify p change).enter p =
      ({ processes.modify p fun proc => { change proc with state := state proc } with
        table := p :: processes.table }.setState p .ready).enqueue p := by
  simp [Processes.enter, Processes.enroll, Processes.setState, Processes.modify]

namespace Refines

variable {kernel : Kernel A} {processes : Processes} {p : Addr}

theorem allocateKernelStack (refines : Refines kernel processes) (sound : processes.Sound)
    (fresh : p ∉ processes.table) (alloc : IsolatingAllocator A) :
    Refines (allocateKernelStack alloc.toAllocator kernel p) processes ∧
      Grows alloc kernel.allocator
        (allocateKernelStack alloc.toAllocator kernel p).allocator := by
  obtain ⟨⟨stack, a⟩, given⟩ : ∃ r, alloc.kmalloc kernel.allocator kernelStackSize = r := ⟨_, rfl⟩
  have written := (refines.allocate a).write sound fresh (fun pcb => { pcb with
    kernelStackBase := stack.getD 0, kernelStackPtr := stack.getD 0 + 4096 }) id (fun _ => rfl)
  rw [modify_id] at written
  simp only [Process.allocateKernelStack, kmalloc_eq _ given]
  exact ⟨written, fun q => alloc.keeps given⟩

theorem linkNew (refines : Refines kernel processes) (sound : processes.Sound)
    (fresh : p ∉ processes.table) (change : Pcb → Pcb) (change' : Proc → Proc)
    (shows : ∀ pcb, (change pcb).proc = change' pcb.proc)
    (linked : (change (kernel.pcb p)).nextInTable = kernel.processTableHead) :
    Refines { kernel.modify p change with processTableHead := some p }
      { processes.modify p change' with table := p :: processes.table } := by
  apply (refines.write sound fresh change change' shows).push
  rw [pcb_modify, if_pos rfl, linked]
  rfl

theorem setUpProcess (refines : Refines kernel processes) (sound : processes.Sound)
    (fresh : p ∉ processes.table) (alloc : IsolatingAllocator A) (stack pid e : Nat)
    (priority d t : Int) :
    Refines (setUpProcess alloc.toAllocator kernel p stack pid e priority d t)
      { processes.modify p fun proc =>
          { proc with pid := pid, state := .new, priority := priority } with
        table := p :: processes.table } ∧
    Grows alloc kernel.allocator
      (setUpProcess alloc.toAllocator kernel p stack pid e priority d t).allocator := by
  have named := refines.write sound fresh (fun pcb =>
    { pcb with pid := pid, state := .new, priority := priority, deadline := d, timeToRun := t,
               userStackBase := stack + 4096 - 4096 })
    (fun proc => { proc with pid := pid, state := .new, priority := priority }) (fun _ => rfl)
  have sound' : (processes.modify p fun proc =>
      { proc with pid := pid, state := .new, priority := priority }).Sound :=
    sound.write fresh _ (by simp)
  let memory := storeWord (storeWord kernel.memory (stack + 4096 - 4) e) (stack + 4096 - 8) 0
  have stored : Refines { kernel.modify p fun pcb =>
      { pcb with pid := pid, state := .new, priority := priority, deadline := d, timeToRun := t,
                 userStackBase := stack + 4096 - 4096 } with memory := memory } _ :=
    ⟨named.queue, named.table, named.proc, named.current, named.nextPid, named.pidAtNull⟩
  have stacked := stored.write sound' fresh
    (fun pcb => { pcb with userStackPtr := stack + 4096 - 8, cr3 := 0, next := none }) id
    (fun _ => rfl)
  rw [modify_id] at stacked
  obtain ⟨complete, grows⟩ := stacked.allocateKernelStack sound' fresh alloc
  have linked := complete.linkNew sound' fresh (fun pcb => { pcb with nextInTable :=
    (Process.allocateKernelStack alloc.toAllocator _ p).processTableHead }) id (fun _ => rfl) rfl
  rw [modify_id] at linked
  exact ⟨linked, grows⟩

theorem createProcess (refines : Refines kernel processes) (sound : processes.Sound)
    (alloc : IsolatingAllocator A)
    (live : ∀ q ∈ processes.table, alloc.live kernel.allocator q) {fuel : Nat} (pid e : Nat)
    (priority d t : Int) (enough : processes.table.length ≤ fuel) :
    ∃ process kernel',
      createProcess alloc.toAllocator fuel kernel pid e priority d t = some (process, kernel') ∧
      Grows alloc kernel.allocator kernel'.allocator ∧
      match process with
      | none => Refines kernel' processes
      | some p => ¬ alloc.live kernel.allocator p ∧ alloc.live kernel'.allocator p ∧
          Refines kernel' ((processes.modify p fun proc =>
            { proc with pid := pid, priority := priority }).enter p) := by
  obtain ⟨⟨process, a₁⟩, given₁⟩ : ∃ r, alloc.kmalloc kernel.allocator pcbSize = r := ⟨_, rfl⟩
  have grows₁ : Grows alloc kernel.allocator a₁ := fun q => alloc.keeps given₁
  cases process with
  | none =>
      refine ⟨none, _, ?_, grows₁, refines.allocate a₁⟩
      simp only [Process.createProcess, kmalloc_eq _ given₁]
  | some p =>
      have unused := alloc.fresh given₁
      have fresh : p ∉ processes.table := fun present => unused (live p present)
      obtain ⟨⟨stack, a₂⟩, given₂⟩ : ∃ r, alloc.kmalloc a₁ 4096 = r := ⟨_, rfl⟩
      have grows₂ : Grows alloc a₁ a₂ := fun q => alloc.keeps given₂
      have stacked := kmalloc_eq { kernel with allocator := a₁ } given₂
      cases stack with
      | none =>
          refine ⟨none, { kernel with allocator := a₂ }, ?_, fun q used => grows₂ q (grows₁ q used),
            refines.allocate a₂⟩
          simp only [Process.createProcess, kmalloc_eq _ given₁, stacked]
      | some stack =>
          obtain ⟨ready, grows₃⟩ :=
            (refines.allocate a₂).setUpProcess sound fresh alloc stack pid e priority d t
          have absent : p ∉ processes.ready := fun queued => fresh ((sound.ready_iff p).mp queued).1
          obtain ⟨kernel', queued, refines', allocator⟩ := (ready.setState p .ready).enqueueReady
            sound.ready_nodup absent (sound.length_ready.trans enough)
          refine ⟨some p, kernel', ?_, ?_, unused, ?_, ?_⟩
          · simp only [Process.createProcess, kmalloc_eq _ given₁, stacked, queued,
              Option.bind_eq_bind, Option.bind_some]
          · intro q used
            rw [allocator]
            exact grows₃ q (grows₂ q (grows₁ q used))
          · rw [allocator]
            exact grows₃ p (grows₂ p (alloc.gives given₁))
          · rw [enter_modify _ p _ fun _ => .new]
            exact refines'

theorem copyCr3 (refines : Refines kernel processes) (sound : processes.Sound)
    (fresh : p ∉ processes.table) (alloc : IsolatingAllocator A) (parent : Addr) :
    Refines (copyCr3 alloc.toAllocator kernel parent p).2 processes ∧
      Grows alloc kernel.allocator (copyCr3 alloc.toAllocator kernel parent p).2.allocator := by
  unfold Process.copyCr3
  split
  · obtain ⟨⟨table, a⟩, given⟩ : ∃ r, alloc.kmalloc kernel.allocator 4096 = r := ⟨_, rfl⟩
    have written := (refines.allocate a).write sound fresh
      (fun pcb => { pcb with cr3 := table.getD 0 }) id (fun _ => rfl)
    rw [modify_id] at written
    simp only [kmalloc_eq _ given]
    cases table with
    | none => exact ⟨written, fun q => alloc.keeps given⟩
    | some table =>
        exact ⟨⟨written.queue, written.table, written.proc, written.current, written.nextPid,
          written.pidAtNull⟩, fun q => alloc.keeps given⟩
  · exact ⟨refines, fun q used => used⟩

theorem setUpChild (refines : Refines kernel processes) (sound : processes.Sound)
    (fresh : p ∉ processes.table) (alloc : IsolatingAllocator A) (parent stack : Addr) :
    Grows alloc kernel.allocator (setUpChild alloc.toAllocator kernel parent p stack).2.allocator ∧
    match (setUpChild alloc.toAllocator kernel parent p stack).1 with
    | none => Refines (setUpChild alloc.toAllocator kernel parent p stack).2 processes
    | some _ => Refines (setUpChild alloc.toAllocator kernel parent p stack).2
        { processes.setState p .ready with table := p :: processes.table } := by
  have copied : Refines { kernel with
      memory := copyMemory stack (kernel.pcb parent).userStackBase 4096 kernel.memory } processes :=
    ⟨refines.queue, refines.table, refines.proc, refines.current, refines.nextPid,
      refines.pidAtNull⟩
  have stacked := copied.write sound fresh
    (fun pcb => { pcb with
      userStackPtr := childStackPtr stack (kernel.pcb parent).userStackPtr
        (kernel.pcb parent).userStackBase }) id (fun _ => rfl)
  rw [modify_id] at stacked
  have mapped := stacked.copyCr3 sound fresh alloc parent
  unfold Process.setUpChild
  simp only
  split
  · next kernel₁ result =>
      rw [result] at mapped
      exact ⟨mapped.2, mapped.1⟩
  · next kernel₁ result =>
      rw [result] at mapped
      obtain ⟨complete, grows⟩ := mapped.1.allocateKernelStack sound fresh alloc
      refine ⟨fun q used => grows q (mapped.2 q used), ?_⟩
      exact complete.linkNew sound fresh (fun pcb => { pcb with
        state := .ready, isNewChild := true,
        nextInTable := (Process.allocateKernelStack alloc.toAllocator kernel₁ p).processTableHead })
        (fun proc => { proc with state := .ready }) (fun _ => rfl) rfl

theorem nameChild (refines : Refines kernel processes) (sound : processes.Sound)
    {child : Addr} (fresh : child ∉ processes.table) (parent : Addr) :
    Refines (nameChild kernel parent child) (processes.forkChild parent child) := by
  apply refines.countPid.write sound.countPid fresh _ _
  intro pcb
  rw [refines.nextPid, ← refines.proc parent]
  rfl

theorem forkChild (refines : Refines kernel processes) (sound : processes.Sound)
    (alloc : IsolatingAllocator A)
    (live : ∀ q ∈ processes.table, alloc.live kernel.allocator q) {fuel : Nat} (parent : Addr)
    (enough : processes.table.length ≤ fuel) :
    ∃ child kernel',
      forkChild alloc.toAllocator fuel kernel parent = some (child, kernel') ∧
      Grows alloc kernel.allocator kernel'.allocator ∧
      match child with
      | none => Refines kernel' processes ∨
          ∃ child, ¬ alloc.live kernel.allocator child ∧ alloc.live kernel'.allocator child ∧
            Refines kernel' (processes.forkChild parent child)
      | some child => ¬ alloc.live kernel.allocator child ∧ alloc.live kernel'.allocator child ∧
          Refines kernel' (processes.fork parent child) := by
  obtain ⟨⟨child, a₁⟩, given₁⟩ : ∃ r, alloc.kmalloc kernel.allocator pcbSize = r := ⟨_, rfl⟩
  have grows₁ : Grows alloc kernel.allocator a₁ := fun q => alloc.keeps given₁
  cases child with
  | none =>
      refine ⟨none, _, ?_, grows₁, Or.inl (refines.allocate a₁)⟩
      simp only [Process.forkChild, kmalloc_eq _ given₁]
  | some child =>
      have unused := alloc.fresh given₁
      have fresh : child ∉ processes.table := fun present => unused (live child present)
      have named := (refines.allocate a₁).nameChild sound fresh parent
      obtain ⟨⟨stack, a₂⟩, given₂⟩ : ∃ r, alloc.kmalloc a₁ 4096 = r := ⟨_, rfl⟩
      have grows₂ : Grows alloc kernel.allocator a₂ :=
        fun q used => alloc.keeps given₂ (grows₁ q used)
      have used₂ : alloc.live a₂ child := alloc.keeps given₂ (alloc.gives given₁)
      have stacked :=
        kmalloc_eq (Process.nameChild { kernel with allocator := a₁ } parent child) given₂
      cases stack with
      | none =>
          refine ⟨none, _, ?_, grows₂, Or.inr ⟨child, unused, used₂, named.allocate a₂⟩⟩
          simp only [Process.forkChild, kmalloc_eq _ given₁, stacked]
      | some stack =>
          have complete := (named.allocate a₂).setUpChild (sound.forkChild parent child) fresh alloc
            parent stack
          simp only [Process.forkChild, kmalloc_eq _ given₁, stacked]
          split
          · next kernel₃ result =>
              rw [result] at complete
              exact ⟨none, kernel₃, rfl, fun q used => complete.1 q (grows₂ q used),
                Or.inr ⟨child, unused, complete.1 child used₂, complete.2⟩⟩
          · next kernel₃ result =>
              rw [result] at complete
              have absent : child ∉ processes.ready :=
                fun queued => fresh ((sound.ready_iff child).mp queued).1
              obtain ⟨kernel', queued, refines', allocator⟩ := complete.2.enqueueReady
                sound.ready_nodup absent (sound.length_ready.trans enough)
              have grows : Grows alloc a₂ kernel'.allocator := by
                rw [allocator]
                exact complete.1
              refine ⟨some child, kernel', ?_, fun q used => grows q (grows₂ q used), unused,
                grows child used₂, ?_⟩
              · simp only [queued, Option.bind_eq_bind, Option.bind_some]
              · rw [Processes.fork, enter_eq]
                exact refines'

theorem forkSyscall (refines : Refines kernel processes) (sound : processes.Sound)
    (alloc : IsolatingAllocator A)
    (live : ∀ q ∈ processes.table, alloc.live kernel.allocator q) {fuel : Nat} (ebp : Nat)
    (parent : Addr) (enough : processes.table.length ≤ fuel) :
    ∃ child kernel',
      forkSyscall alloc.toAllocator fuel ebp kernel parent = some (child, kernel') ∧
      Grows alloc kernel.allocator kernel'.allocator ∧
      match child with
      | none => Refines kernel' processes ∨
          ∃ child, ¬ alloc.live kernel.allocator child ∧ alloc.live kernel'.allocator child ∧
            Refines kernel' (processes.forkChild parent child)
      | some child => ¬ alloc.live kernel.allocator child ∧ alloc.live kernel'.allocator child ∧
          Refines kernel' (processes.fork parent child) :=
  (refines.hide parent (fun pcb => { pcb with userStackPtr := ebp }) (fun _ => rfl)
    (fun _ => rfl) (fun _ => rfl)).forkChild sound alloc live parent enough

end Refines

end ApnaOS.Process
