import ApnaOS.Process.Orderly
import ApnaOS.Process.Simulation

/-!
# Two kernels side by side

The second kernel has the same lists and the same processes in them as the first one.
Other PCBs may hold anything.  Every function of the kernel does the same in both, as
long as it reads nothing else.
-/

set_option autoImplicit false

namespace ApnaOS.Process

open ApnaOS.Lib
open Function (update update_self update_of_ne update_idem)

/-- The fields of a process in the table that are read; the exit status only of a zombie. -/
structure Similar (pcb pcb' : Pcb) : Prop where
  pid : pcb'.pid = pcb.pid
  state : pcb'.state = pcb.state
  userStackPtr : pcb'.userStackPtr = pcb.userStackPtr
  cr3 : pcb'.cr3 = pcb.cr3
  priority : pcb'.priority = pcb.priority
  parent : pcb'.parent = pcb.parent
  isNewChild : pcb'.isNewChild = pcb.isNewChild
  userStackBase : pcb'.userStackBase = pcb.userStackBase
  exitStatus : pcb.state = .zombie → pcb'.exitStatus = pcb.exitStatus

namespace Similar

variable {pcb pcb' : Pcb}

theorem refl (pcb : Pcb) : Similar pcb pcb := ⟨rfl, rfl, rfl, rfl, rfl, rfl, rfl, rfl, fun _ => rfl⟩

theorem setState (same : Similar pcb pcb') {state : ProcessState} (alive : state ≠ .zombie) :
    Similar { pcb with state := state } { pcb' with state := state } :=
  { same with state := rfl, exitStatus := fun zombie => absurd zombie alive }

theorem setNext (same : Similar pcb pcb') (next next' : Option Addr) :
    Similar { pcb with next := next } { pcb' with next := next' } :=
  { same with }

end Similar

theorem Processes.Sound.listed {processes : Processes} (sound : processes.Sound) {a : Addr}
    (queued : a ∈ processes.ready) : a ∈ processes.table := ((sound.ready_iff a).mp queued).1

variable {A : Type}

def Processes.seenIn (processes : Processes) (kernel : Kernel A) : Processes :=
  { processes with proc := fun a => (kernel.pcb a).proc }

structure OnlyLinks (before after : Kernel A) : Prop where
  pcb : ∀ a, ∃ next, after.pcb a = { before.pcb a with nextInTable := next }
  current : after.currentProcess = before.currentProcess
  nextPid : after.nextPid = before.nextPid
  pidAtNull : after.pidAtNull = before.pidAtNull

theorem onlyLinks_unlinkAfter (kernel : Kernel A) (prev : Option Addr) (child : Addr) :
    OnlyLinks kernel (unlinkAfter kernel prev child) := by
  cases prev with
  | none => exact ⟨fun a => ⟨(kernel.pcb a).nextInTable, rfl⟩, rfl, rfl, rfl⟩
  | some prev =>
      refine ⟨?_, rfl, rfl, rfl⟩
      intro a
      rw [unlinkAfter, pcb_modify]
      split
      · exact ⟨_, rfl⟩
      · exact ⟨(kernel.pcb a).nextInTable, rfl⟩

theorem onlyLinks_findZombie {kernel after : Kernel A} {p : Addr} {fuel : Nat}
    {prev current found : Option Addr}
    (ran : findZombie kernel p fuel prev current = some (found, after)) :
    OnlyLinks kernel after := by
  induction fuel generalizing prev current with
  | zero => cases ran
  | succ fuel ih =>
      cases current with
      | none =>
          simp only [findZombie, Option.some.injEq, Prod.mk.injEq] at ran
          rw [← ran.2]
          exact ⟨fun a => ⟨(kernel.pcb a).nextInTable, rfl⟩, rfl, rfl, rfl⟩
      | some current =>
          rw [findZombie] at ran
          split at ran
          · simp only [Option.some.injEq, Prod.mk.injEq] at ran
            rw [← ran.2]
            exact onlyLinks_unlinkAfter kernel prev current
          · exact ih ran

/-- The first kernel shows these processes, and so does the second as far as they are
in the table. -/
structure Pair (processes : Processes) (kernel kernel' : Kernel A) : Prop where
  refines : Refines kernel processes
  queue : IsQueue kernel'.pcb kernel'.readyQueue processes.ready
  table : Chain kernel'.pcb.nextInTable kernel'.processTableHead processes.table none
  similar : ∀ a ∈ processes.table, Similar (kernel.pcb a) (kernel'.pcb a)
  allocator : kernel'.allocator = kernel.allocator
  current : kernel'.currentProcess = kernel.currentProcess
  nextPid : kernel'.nextPid = kernel.nextPid
  pidAtNull : kernel'.pidAtNull = kernel.pidAtNull

namespace Pair

variable {kernel kernel' : Kernel A} {processes : Processes} {p : Addr}

theorem modify (pair : Pair processes kernel kernel') {after : Processes}
    {change change' : Pcb → Pcb} (refines : Refines (kernel.modify p change) after)
    (ready : after.ready = processes.ready) (table : after.table = processes.table)
    (queued : p ∈ processes.ready → (change' (kernel'.pcb p)).next = (kernel'.pcb p).next)
    (linked : p ∈ processes.table →
      (change' (kernel'.pcb p)).nextInTable = (kernel'.pcb p).nextInTable)
    (similar : p ∈ processes.table → Similar (kernel.pcb p) (kernel'.pcb p) →
      Similar (change (kernel.pcb p)) (change' (kernel'.pcb p))) :
    Pair after (kernel.modify p change) (kernel'.modify p change') := by
  refine ⟨refines, ⟨?_, ?_⟩, ?_, ?_, pair.allocator, pair.current, pair.nextPid, pair.pidAtNull⟩
  · rw [ready]
    apply pair.queue.chain.congr
    intro a member
    rw [PcbMemory.next, pcb_modify]
    split
    · next same =>
        rw [same]
        exact queued (same ▸ member)
    · rfl
  · rw [ready]
    exact pair.queue.rear
  · rw [table]
    apply pair.table.congr
    intro a member
    rw [PcbMemory.nextInTable, pcb_modify]
    split
    · next same =>
        rw [same]
        exact linked (same ▸ member)
    · rfl
  · rw [table]
    intro a member
    rw [pcb_modify, pcb_modify]
    split
    · next same =>
        rw [same]
        exact similar (same ▸ member) (pair.similar p (same ▸ member))
    · exact pair.similar a member

theorem setState (pair : Pair processes kernel kernel') (p : Addr) (state : ProcessState)
    (alive : state ≠ .zombie) :
    Pair (processes.setState p state) (kernel.setState p state) (kernel'.setState p state) :=
  pair.modify (pair.refines.setState p state) rfl rfl (fun _ => rfl) (fun _ => rfl)
    fun _ same => same.setState alive

theorem enqueueReady (pair : Pair processes kernel kernel') (nodup : processes.ready.Nodup)
    (absent : p ∉ processes.ready) (present : p ∈ processes.table)
    (listed : ∀ a ∈ processes.ready, a ∈ processes.table) {fuel : Nat}
    (enough : processes.ready.length ≤ fuel) :
    ∃ after after', kernel.enqueueReady fuel p = some after ∧
      kernel'.enqueueReady fuel p = some after' ∧ Pair (processes.enqueue p) after after' := by
  obtain ⟨after, ran, refines, allocator⟩ := pair.refines.enqueueReady nodup absent enough
  obtain ⟨pcb₁, queue₁, ran₁, only₁, _⟩ := enqueueBy_spec Pcb.priority (fun _ _ => rfl) fuel
    pair.refines.queue nodup absent enough
  obtain ⟨pcb₂, queue₂, ran₂, only₂, isQueue₂⟩ := enqueueBy_spec Pcb.priority (fun _ _ => rfl) fuel
    pair.queue nodup absent enough
  have keys : insertByKey (fun a => (kernel'.pcb a).priority) p processes.ready =
      insertByKey processes.priority p processes.ready := by
    have same : ∀ a ∈ processes.table, (kernel'.pcb a).priority = processes.priority a := by
      intro a member
      exact (pair.similar a member).priority.trans
        (congrArg Proc.priority (pair.refines.proc a))
    exact insertByKey_congr (same p present) fun a queued => same a (listed a queued)
  rw [keys] at isQueue₂
  have first : after = { kernel with pcb := pcb₁, readyQueue := queue₁ } := by
    simp only [Kernel.enqueueReady, enqueueProcess, ran₁, Option.bind_eq_bind, Option.bind_some,
      Option.some.injEq] at ran
    exact ran.symm
  refine ⟨after, { kernel' with pcb := pcb₂, readyQueue := queue₂ }, ran, ?_, ?_⟩
  · simp only [Kernel.enqueueReady, enqueueProcess, ran₂, Option.bind_eq_bind, Option.bind_some]
  · refine ⟨refines, isQueue₂, pair.table.congr ?_, ?_, ?_, ?_, ?_, ?_⟩
    · intro a _
      exact only₂.field Pcb.nextInTable (fun _ _ => rfl) a
    · intro a member
      obtain ⟨next₁, same₁⟩ := only₁ a
      obtain ⟨next₂, same₂⟩ := only₂ a
      rw [first]
      simp only [same₁, same₂]
      exact (pair.similar a member).setNext next₁ next₂
    · rw [allocator]
      exact pair.allocator
    · rw [first]
      exact pair.current
    · rw [first]
      exact pair.nextPid
    · rw [first]
      exact pair.pidAtNull

theorem makeReady (pair : Pair processes kernel kernel') (sound : processes.Sound)
    (present : p ∈ processes.table) (other : processes.state p ≠ .ready) {fuel : Nat}
    (enough : processes.table.length ≤ fuel) :
    ∃ after after', (kernel.setState p .ready).enqueueReady fuel p = some after ∧
      (kernel'.setState p .ready).enqueueReady fuel p = some after' ∧
      Pair ((processes.setState p .ready).enqueue p) after after' :=
  (pair.setState p .ready (by decide)).enqueueReady sound.ready_nodup (sound.not_ready other) present
    (fun _ => sound.listed) (sound.length_ready.trans enough)

theorem state_eq (pair : Pair processes kernel kernel') {a : Addr}
    (present : a ∈ processes.table) : (kernel'.pcb a).state = processes.state a :=
  (pair.similar a present).state.trans (pair.refines.state_eq a)

theorem preempt (pair : Pair processes kernel kernel') (sound : processes.Sound) {fuel : Nat}
    (enough : processes.table.length ≤ fuel) :
    ∃ after after', preempt fuel kernel = some after ∧ preempt fuel kernel' = some after' ∧
      Pair processes.preempt after after' := by
  have refines := pair.refines
  have current' := pair.current.trans refines.current
  rcases processes.preempt_cases with ⟨same, rests⟩ | ⟨p, current, runs, queued⟩
  · rw [same]
    refine ⟨kernel, kernel', ?_, ?_, pair⟩
    · rw [Process.preempt, refines.current]
      cases current : processes.current with
      | none => rfl
      | some p => simp only [refines.state_eq, rests p current, if_false]
    · rw [Process.preempt, current']
      cases current : processes.current with
      | none => rfl
      | some p =>
          simp only [pair.state_eq (sound.current p current), rests p current, if_false]
  · have present := sound.current p current
    obtain ⟨after, after', ran, ran', pair'⟩ :=
      pair.makeReady sound present (by simp [runs]) enough
    refine ⟨after, after', ?_, ?_, queued ▸ pair'⟩
    · simp only [Process.preempt, refines.current, current, refines.state_eq, runs, if_true, ran]
    · simp only [Process.preempt, current', current, pair.state_eq present, runs, if_true, ran']

theorem saveKernelStackPtr (pair : Pair processes kernel kernel') (esp : Nat) :
    Pair processes (saveKernelStackPtr kernel esp) (saveKernelStackPtr kernel' esp) := by
  have refines := pair.refines.saveKernelStackPtr esp
  unfold Process.saveKernelStackPtr at refines ⊢
  rw [pair.current]
  cases current : kernel.currentProcess with
  | none => exact pair
  | some p =>
      rw [current] at refines
      exact pair.modify refines rfl rfl (fun _ => rfl) (fun _ => rfl) fun _ same => { same with }

theorem setCurrent (pair : Pair processes kernel kernel') (p : Addr) :
    Pair { processes with current := some p } { kernel with currentProcess := some p }
      { kernel' with currentProcess := some p } := by
  have refines := pair.refines
  exact ⟨⟨refines.queue, refines.table, refines.proc, rfl, refines.nextPid, refines.pidAtNull⟩,
    pair.queue, pair.table, pair.similar, pair.allocator, rfl, pair.nextPid, pair.pidAtNull⟩

theorem dequeue (pair : Pair processes kernel kernel') (nodup : processes.ready.Nodup) :
    ∃ pcb queue pcb' queue',
      dequeueProcess kernel.pcb kernel.readyQueue = (processes.ready.head?, pcb, queue) ∧
      dequeueProcess kernel'.pcb kernel'.readyQueue = (processes.ready.head?, pcb', queue') ∧
      Pair { processes with ready := processes.ready.tail }
        { kernel with pcb := pcb, readyQueue := queue }
        { kernel' with pcb := pcb', readyQueue := queue' } := by
  have refines := pair.refines
  obtain ⟨pcb, queue, ran, only, isQueue⟩ := dequeueProcess_spec refines.queue nodup
  obtain ⟨pcb', queue', ran', only', isQueue'⟩ := dequeueProcess_spec pair.queue nodup
  refine ⟨pcb, queue, pcb', queue', ran, ran', ⟨⟨isQueue, refines.table.congr ?_, ?_,
    refines.current, refines.nextPid, refines.pidAtNull⟩, isQueue', pair.table.congr ?_, ?_,
    pair.allocator, pair.current, pair.nextPid, pair.pidAtNull⟩⟩
  · intro a _
    exact only.field Pcb.nextInTable (fun _ _ => rfl) a
  · intro a
    exact (only.field Pcb.proc (fun _ _ => rfl) a).trans (refines.proc a)
  · intro a _
    exact only'.field Pcb.nextInTable (fun _ _ => rfl) a
  · intro a member
    obtain ⟨next, same⟩ := only a
    obtain ⟨next', same'⟩ := only' a
    simp only [same, same']
    exact (pair.similar a member).setNext next next'

theorem dispatch (pair : Pair processes kernel kernel') (nodup : processes.ready.Nodup)
    (listed : ∀ a ∈ processes.ready, a ∈ processes.table) (esp : Nat) :
    (dispatch esp kernel).1 = processes.dispatch.1 ∧
      (dispatch esp kernel').1 = processes.dispatch.1 ∧
      Pair processes.dispatch.2 (dispatch esp kernel).2 (dispatch esp kernel').2 := by
  obtain ⟨pcb, queue, pcb', queue', ran, ran', dequeued⟩ := pair.dequeue nodup
  rcases processes.dispatch_cases with ⟨empty, same⟩ | ⟨p, rest, ready, given⟩
  · rw [empty] at ran ran' dequeued
    have left : { processes with ready := [].tail } = processes := by rw [List.tail_nil, ← empty]
    rw [left] at dequeued
    simp only [Process.dispatch, ran, ran', List.head?_nil, same]
    exact ⟨trivial, trivial, dequeued⟩
  · have present := listed p (ready ▸ List.mem_cons_self)
    rw [ready] at ran ran' dequeued
    simp only [Process.dispatch, ran, ran', List.head?_cons, given]
    have running := (dequeued.setState p .running (by decide)).saveKernelStackPtr esp
    have isNew := (running.similar p present).isNewChild
    refine ⟨trivial, trivial, ?_⟩
    rw [isNew]
    split
    · have known := running.refines.hide p (fun pcb => { pcb with isNewChild := false })
        (fun _ => rfl) (fun _ => rfl) (fun _ => rfl)
      exact (running.modify known rfl rfl (fun _ => rfl) (fun _ => rfl)
        fun _ same => { same with isNewChild := rfl }).setCurrent p
    · exact running.setCurrent p

theorem schedule (pair : Pair processes kernel kernel') (sound : processes.Sound) {fuel : Nat}
    (esp : Nat) (enough : processes.table.length ≤ fuel) :
    ∃ after after', schedule fuel esp kernel = some (processes.schedule.1, after) ∧
      schedule fuel esp kernel' = some (processes.schedule.1, after') ∧
      Pair processes.schedule.2 after after' := by
  obtain ⟨middle, middle', ran, ran', preempted⟩ := pair.preempt sound enough
  obtain ⟨given, given', dispatched⟩ :=
    preempted.dispatch sound.preempt.ready_nodup (fun _ => sound.preempt.listed) esp
  refine ⟨_, _, ?_, ?_, dispatched⟩
  · simp only [Process.schedule, ran, Option.bind_eq_bind, Option.bind_some, Processes.schedule,
      ← given]
  · simp only [Process.schedule, ran', Option.bind_eq_bind, Option.bind_some, Processes.schedule,
      ← given']

theorem setUserStackPtr (pair : Pair processes kernel kernel') (p : Addr) (ebp : Nat) :
    Pair processes (kernel.modify p fun pcb => { pcb with userStackPtr := ebp })
      (kernel'.modify p fun pcb => { pcb with userStackPtr := ebp }) := by
  have saved := pair.refines.hide p (fun pcb => { pcb with userStackPtr := ebp })
    (fun _ => rfl) (fun _ => rfl) (fun _ => rfl)
  exact pair.modify saved rfl rfl (fun _ => rfl) (fun _ => rfl)
    fun _ same => { same with userStackPtr := rfl }

theorem yieldSyscall (pair : Pair processes kernel kernel') (sound : processes.Sound) (p : Addr)
    {fuel : Nat} (ebp esp : Nat) (enough : processes.table.length ≤ fuel) :
    ∃ after after', yieldSyscall fuel ebp esp kernel p = some (processes.schedule.1, after) ∧
      yieldSyscall fuel ebp esp kernel' p = some (processes.schedule.1, after') ∧
      Pair processes.schedule.2 after after' :=
  (pair.setUserStackPtr p ebp).schedule sound esp enough

theorem wakeParent (pair : Pair processes kernel kernel') (sound : processes.Sound)
    (present : p ∈ processes.table)
    (stale : ∀ q, processes.parent p = some q → q ∉ processes.table →
      (kernel'.pcb q).state ≠ .blocked) {fuel : Nat} (enough : processes.table.length ≤ fuel) :
    ∃ after after', wakeParent fuel kernel p = some after ∧
      wakeParent fuel kernel' p = some after' ∧ Pair (processes.wakeParent p) after after' := by
  have refines := pair.refines
  have parent' : (kernel'.pcb p).parent = processes.parent p :=
    (pair.similar p present).parent.trans (refines.parent_eq p)
  rcases processes.wakeParent_cases p with ⟨same, rests⟩ | ⟨q, parent, blocks, woken⟩
  · rw [same]
    refine ⟨kernel, kernel', ?_, ?_, pair⟩
    · rw [Process.wakeParent, refines.parent_eq]
      cases parent : processes.parent p with
      | none => rfl
      | some q => simp only [refines.state_eq, rests q parent, if_false]
    · rw [Process.wakeParent, parent']
      cases parent : processes.parent p with
      | none => rfl
      | some q =>
          have unblocked : (kernel'.pcb q).state ≠ .blocked := by
            by_cases listed : q ∈ processes.table
            · rw [pair.state_eq listed]
              exact rests q parent
            · exact stale q parent listed
          simp only [unblocked, if_false]
  · have listed := sound.blocked q blocks
    obtain ⟨after, after', ran, ran', pair'⟩ :=
      pair.makeReady sound listed (by simp [blocks]) enough
    refine ⟨after, after', ?_, ?_, woken ▸ pair'⟩
    · simp only [Process.wakeParent, refines.parent_eq, parent, refines.state_eq, blocks, if_true,
        ran]
    · simp only [Process.wakeParent, parent', parent, pair.state_eq listed, blocks, if_true, ran']

theorem exitSyscall (pair : Pair processes kernel kernel') (sound : processes.Sound)
    (present : p ∈ processes.table) (runs : processes.state p = .running)
    (stale : ∀ q, processes.parent p = some q → q ∉ processes.table →
      (kernel'.pcb q).state ≠ .blocked) {fuel : Nat} (esp : Nat) (status : Int)
    (enough : processes.table.length ≤ fuel) :
    ∃ after after',
      exitSyscall fuel esp kernel p status =
        some ((processes.exit p status).schedule.1, after) ∧
      exitSyscall fuel esp kernel' p status =
        some ((processes.exit p status).schedule.1, after') ∧
      Pair (processes.exit p status).schedule.2 after after' := by
  have dead : Refines
      (kernel.modify p fun pcb => { pcb with exitStatus := status, state := .zombie })
      (processes.die p status) := by
    rw [Processes.die, Processes.setExitStatus, Processes.setState, Processes.modify_modify]
    exact pair.refines.modify p _ _ (fun _ => rfl) (fun _ => rfl) (fun _ => rfl)
  have died : Pair (processes.die p status)
      (kernel.modify p fun pcb => { pcb with exitStatus := status, state := .zombie })
      (kernel'.modify p fun pcb => { pcb with exitStatus := status, state := .zombie }) :=
    pair.modify dead rfl rfl (fun _ => rfl) (fun _ => rfl)
      fun _ same => { same with state := rfl, exitStatus := fun _ => rfl }
  have parent : (processes.die p status).parent p = processes.parent p := by
    rw [Processes.parent, Processes.proc_die, if_pos rfl]
    rfl
  obtain ⟨woke, woke', ran, ran', woken⟩ :=
    died.wakeParent (sound.die present runs status) present (by
      intro q parent' absent
      have different : q ≠ p := fun same => absent (same ▸ present)
      rw [pcb_modify, if_neg different]
      exact stale q (parent ▸ parent') absent) enough
  have enough' : (processes.exit p status).table.length ≤ fuel := by
    rw [Processes.table_exit]
    exact enough
  obtain ⟨after, after', ran₂, ran₂', scheduled⟩ :=
    woken.schedule (sound.exit present runs status) esp enough'
  refine ⟨after, after', ?_, ?_, scheduled⟩
  · simp only [Process.exitSyscall, ran, Option.bind_eq_bind, Option.bind_some]
    exact ran₂
  · simp only [Process.exitSyscall, ran', Option.bind_eq_bind, Option.bind_some]
    exact ran₂'

/-! ## Searching the process table -/

theorem refines' (pair : Pair processes kernel kernel') :
    Refines kernel' (processes.seenIn kernel') :=
  ⟨pair.queue, pair.table, fun _ => rfl, pair.current.trans pair.refines.current,
    pair.nextPid.trans pair.refines.nextPid, pair.pidAtNull.trans pair.refines.pidAtNull⟩

/-- What the search of `find_zombie_child` reads of zombies is the same in both. -/
def SameTests (processes : Processes) (kernel' : Kernel A) (p : Addr) : Prop :=
  ∀ front child back, processes.table = front ++ child :: back →
    (∀ c ∈ front, processes.isZombieChild p c = false) → processes.state child = .zombie →
      (processes.pidOf (processes.parent child) = (processes.proc p).pid ↔
        kernel'.pidOf (processes.parent child) = (processes.proc p).pid)

theorem zombieChild_eq (pair : Pair processes kernel kernel') (present : p ∈ processes.table)
    (same : SameTests processes kernel' p) :
    (processes.seenIn kernel').zombieChild p =
      processes.zombieChild p := by
  have agree : ∀ front child back, processes.table = front ++ child :: back →
      (∀ c ∈ front, processes.isZombieChild p c = false) →
        (processes.seenIn kernel').isZombieChild p child = processes.isZombieChild p child := by
    intro front child back split others
    have member : child ∈ processes.table := by rw [split]; simp
    have here := pair.similar child member
    have pid := (pair.similar p present).pid.trans (congrArg Proc.pid (pair.refines.proc p))
    have parent := here.parent.trans (pair.refines.parent_eq child)
    have test' := pair.refines'.test_iff p child
    rw [Bool.eq_iff_iff, ← test', pair.state_eq member, parent, pid, Spec.isZombieChild_iff]
    by_cases zombie : processes.state child = .zombie
    · rw [same front child back split others zombie]
    · simp [zombie]
  have search : ∀ front back, processes.table = front ++ back →
      (∀ c ∈ front, processes.isZombieChild p c = false) →
        back.find? ((processes.seenIn kernel').isZombieChild p) =
          back.find? (processes.isZombieChild p) := by
    intro front back
    induction back generalizing front with
    | nil => exact fun _ _ => rfl
    | cons child rest ih =>
        intro split others
        have here := agree front child rest split others
        cases test : processes.isZombieChild p child with
        | true =>
            rw [test] at here
            rw [List.find?_cons_of_pos test, List.find?_cons_of_pos here]
        | false =>
            rw [test] at here
            rw [List.find?_cons_of_neg (Bool.eq_false_iff.mp here),
              List.find?_cons_of_neg (Bool.eq_false_iff.mp test)]
            apply ih (front ++ [child]) (by rw [split]; simp)
            intro c member
            rcases List.mem_append.mp member with earlier | last
            · exact others c earlier
            · rw [List.mem_singleton.mp last]
              exact test
  exact search [] processes.table rfl (by simp)

theorem findZombieChild (pair : Pair processes kernel kernel') (nodup : processes.table.Nodup)
    (present : p ∈ processes.table) (same : SameTests processes kernel' p) {fuel : Nat}
    (enough : processes.table.length < fuel) :
    ∃ after after', findZombieChild fuel kernel p = some (processes.zombieChild p, after) ∧
      findZombieChild fuel kernel' p = some (processes.zombieChild p, after') ∧
      Pair ((processes.zombieChild p).elim processes processes.unlink) after after' ∧
      ∀ a ∈ processes.table, Similar (after.pcb a) (after'.pcb a) := by
  obtain ⟨after, ran, refines, allocator⟩ := pair.refines.findZombieChild nodup p enough
  obtain ⟨after', ran', shown, allocator'⟩ := pair.refines'.findZombieChild nodup p enough
  rw [pair.zombieChild_eq present same] at ran' shown
  have links := onlyLinks_findZombie ran
  have links' := onlyLinks_findZombie ran'
  have kept : ∀ a ∈ processes.table, Similar (after.pcb a) (after'.pcb a) := by
    intro a member
    obtain ⟨next, here⟩ := links.pcb a
    obtain ⟨next', there⟩ := links'.pcb a
    rw [here, there]
    exact { pair.similar a member with }
  have shared : after'.allocator = after.allocator ∧
      after'.currentProcess = after.currentProcess ∧ after'.nextPid = after.nextPid ∧
        after'.pidAtNull = after.pidAtNull :=
    ⟨by rw [allocator, allocator', pair.allocator],
      by rw [links.current, links'.current, pair.current],
      by rw [links.nextPid, links'.nextPid, pair.nextPid],
      by rw [links.pidAtNull, links'.pidAtNull, pair.pidAtNull]⟩
  refine ⟨after, after', ran, ran', ?_, kept⟩
  cases found : processes.zombieChild p with
  | none =>
      rw [found] at refines shown
      exact ⟨refines, shown.queue, shown.table, kept, shared.1, shared.2.1, shared.2.2.1,
        shared.2.2.2⟩
  | some child =>
      rw [found] at refines shown
      exact ⟨refines, shown.queue, shown.table,
        fun a member => kept a (List.mem_of_mem_erase member), shared.1, shared.2.1, shared.2.2.1,
        shared.2.2.2⟩

theorem reap (pair : Pair processes kernel kernel') {before : Processes} (alloc : Allocator A)
    (child : Addr) (zombie : (kernel.pcb child).state = .zombie)
    (similar : Similar (kernel.pcb child) (kernel'.pcb child))
    (proc : before.proc child = processes.proc child) :
    reap alloc kernel child = (before.collected child, kernel.kfree alloc (some child)) ∧
    reap alloc kernel' child = (before.collected child, kernel'.kfree alloc (some child)) ∧
    Pair processes (kernel.kfree alloc (some child)) (kernel'.kfree alloc (some child)) := by
  have shown := pair.refines.reap alloc child
  have result : processes.collected child = before.collected child := by
    rw [Processes.collected, Processes.collected, proc]
  rw [result] at shown
  refine ⟨shown, ?_, ⟨pair.refines.allocate _, pair.queue, pair.table, pair.similar, ?_,
    pair.current, pair.nextPid, pair.pidAtNull⟩⟩
  · rw [Process.reap, Prod.mk.injEq] at shown
    rw [Process.reap, similar.pid, similar.exitStatus zombie, shown.1]
  · rw [Kernel.kfree, Kernel.kfree, pair.allocator]

theorem waitSyscall_returns (pair : Pair processes kernel kernel') (nodup : processes.table.Nodup)
    (present : p ∈ processes.table) (same : SameTests processes kernel' p) (alloc : Allocator A)
    {child : Addr} {fuel : Nat} (ebp esp : Nat) (enough : processes.table.length < fuel)
    (found : processes.zombieChild p = some child) :
    ∃ after after',
      waitSyscall alloc fuel ebp esp kernel p =
        some (.returned (processes.collected child), after) ∧
      waitSyscall alloc fuel ebp esp kernel' p =
        some (.returned (processes.collected child), after') ∧
      Pair (processes.unlink child) after after' := by
  obtain ⟨middle, middle', ran, ran', unlinked, kept⟩ :=
    pair.findZombieChild nodup present same enough
  rw [found] at ran ran' unlinked
  obtain ⟨present', test⟩ := Spec.zombieChild_spec found
  have zombie : (middle.pcb child).state = .zombie :=
    (unlinked.refines.state_eq child).trans (Spec.isZombieChild_iff.mp test).2
  obtain ⟨reaped, reaped', freed⟩ := unlinked.reap alloc child zombie
    (kept child present') (rfl : processes.proc child = _)
  refine ⟨_, _, ?_, ?_, freed⟩
  · simp only [Process.waitSyscall, ran, Option.bind_eq_bind, Option.bind_some, reaped]
  · simp only [Process.waitSyscall, ran', Option.bind_eq_bind, Option.bind_some, reaped']

theorem waitSyscall_suspends (pair : Pair processes kernel kernel') (sound : processes.Sound)
    (present : p ∈ processes.table) (runs : processes.state p = .running)
    (same : SameTests processes kernel' p) (alloc : Allocator A) {fuel : Nat} (ebp esp : Nat)
    (enough : processes.table.length < fuel) (none_found : processes.zombieChild p = none) :
    ∃ after after',
      waitSyscall alloc fuel ebp esp kernel p =
        some (.suspended (processes.setState p .blocked).schedule.1, after) ∧
      waitSyscall alloc fuel ebp esp kernel' p =
        some (.suspended (processes.setState p .blocked).schedule.1, after') ∧
      Pair (processes.setState p .blocked).schedule.2 after after' := by
  obtain ⟨middle, middle', ran, ran', searched, _⟩ :=
    pair.findZombieChild sound.table_nodup present same enough
  rw [none_found] at ran ran' searched
  rw [Option.elim_none] at searched
  have sound' := sound.block present runs
  obtain ⟨after, after', ran₂, ran₂', scheduled⟩ :=
    (searched.setState p .blocked (by decide)).yieldSyscall sound' p ebp esp (Nat.le_of_lt enough)
  refine ⟨after, after', ?_, ?_, scheduled⟩
  · simp only [Process.waitSyscall, ran, Option.bind_eq_bind, Option.bind_some, ran₂]
  · simp only [Process.waitSyscall, ran', Option.bind_eq_bind, Option.bind_some, ran₂']

theorem waitResumed_returns (pair : Pair processes kernel kernel') (nodup : processes.table.Nodup)
    (present : p ∈ processes.table) (same : SameTests processes kernel' p) (alloc : Allocator A)
    {child : Addr} {fuel : Nat} (enough : processes.table.length < fuel)
    (found : processes.zombieChild p = some child) :
    ∃ after after',
      waitResumed alloc fuel kernel p = some (processes.collected child, after) ∧
      waitResumed alloc fuel kernel' p = some (processes.collected child, after') ∧
      Pair (processes.unlink child) after after' := by
  obtain ⟨middle, middle', ran, ran', unlinked, kept⟩ :=
    pair.findZombieChild nodup present same enough
  rw [found] at ran ran' unlinked
  obtain ⟨present', test⟩ := Spec.zombieChild_spec found
  have zombie : (middle.pcb child).state = .zombie :=
    (unlinked.refines.state_eq child).trans (Spec.isZombieChild_iff.mp test).2
  obtain ⟨reaped, reaped', freed⟩ := unlinked.reap alloc child zombie
    (kept child present') (rfl : processes.proc child = _)
  refine ⟨_, _, ?_, ?_, freed⟩
  · simp only [Process.waitResumed, ran, Option.bind_eq_bind, Option.bind_some, reaped]
  · simp only [Process.waitResumed, ran', Option.bind_eq_bind, Option.bind_some, reaped']

theorem waitResumed_misses (pair : Pair processes kernel kernel') (nodup : processes.table.Nodup)
    (present : p ∈ processes.table) (same : SameTests processes kernel' p) (alloc : Allocator A)
    {fuel : Nat} (enough : processes.table.length < fuel)
    (none_found : processes.zombieChild p = none) :
    ∃ after after',
      waitResumed alloc fuel kernel p = some (⟨-1, none, none⟩, after) ∧
      waitResumed alloc fuel kernel' p = some (⟨-1, none, none⟩, after') ∧
      Pair processes after after' := by
  obtain ⟨after, after', ran, ran', searched, _⟩ :=
    pair.findZombieChild nodup present same enough
  rw [none_found] at ran ran' searched
  refine ⟨after, after', ?_, ?_, searched⟩
  · simp only [Process.waitResumed, ran, Option.bind_eq_bind, Option.bind_some]
  · simp only [Process.waitResumed, ran', Option.bind_eq_bind, Option.bind_some]

/-! ## New processes -/

theorem write (pair : Pair processes kernel kernel') (sound : processes.Sound)
    (fresh : p ∉ processes.table) {after : Processes} (change change' : Pcb → Pcb)
    (refines : Refines (kernel.modify p change) after) (ready : after.ready = processes.ready)
    (table : after.table = processes.table) :
    Pair after (kernel.modify p change) (kernel'.modify p change') :=
  pair.modify refines ready table (fun queued => absurd (sound.listed queued) fresh)
    (fun present => absurd present fresh) fun present => absurd present fresh

theorem allocate (pair : Pair processes kernel kernel') (a : A) :
    Pair processes { kernel with allocator := a } { kernel' with allocator := a } :=
  ⟨pair.refines.allocate a, pair.queue, pair.table, pair.similar, rfl, pair.current, pair.nextPid,
    pair.pidAtNull⟩

theorem setMemory (pair : Pair processes kernel kernel') (memory memory' : Nat → UInt8) :
    Pair processes { kernel with memory := memory } { kernel' with memory := memory' } := by
  have refines := pair.refines
  exact ⟨⟨refines.queue, refines.table, refines.proc, refines.current, refines.nextPid,
    refines.pidAtNull⟩, pair.queue, pair.table, pair.similar, pair.allocator, pair.current,
    pair.nextPid, pair.pidAtNull⟩

theorem countPid (pair : Pair processes kernel kernel') :
    Pair processes.countPid kernel.getNewPid.2 kernel'.getNewPid.2 :=
  ⟨pair.refines.countPid, pair.queue, pair.table, pair.similar, pair.allocator, pair.current,
    congrArg (· + 1) pair.nextPid, pair.pidAtNull⟩

theorem push (pair : Pair processes kernel kernel') {after : Processes}
    (refines : Refines { kernel with processTableHead := some p } after)
    (ready : after.ready = processes.ready) (table : after.table = p :: processes.table)
    (linked : (kernel'.pcb p).nextInTable = kernel'.processTableHead)
    (similar : Similar (kernel.pcb p) (kernel'.pcb p)) :
    Pair after { kernel with processTableHead := some p }
      { kernel' with processTableHead := some p } := by
  refine ⟨refines, ready ▸ pair.queue, ?_, ?_, pair.allocator, pair.current, pair.nextPid,
    pair.pidAtNull⟩
  · rw [table]
    refine ⟨rfl, ?_⟩
    rw [PcbMemory.nextInTable, linked]
    exact pair.table
  · rw [table]
    intro a member
    rcases List.mem_cons.mp member with same | old
    · rw [same]
      exact similar
    · exact pair.similar a old

end Pair

/-- What `create_process` has written into a PCB when it puts it into the table. -/
def newPcb (stack pid : Nat) (priority deadline timeToRun : Int) (kernelStack head : Option Addr)
    (pcb : Pcb) : Pcb :=
  { pcb with
    pid := pid, state := .new, priority := priority, deadline := deadline, timeToRun := timeToRun,
    userStackBase := stack + 4096 - 4096, userStackPtr := stack + 4096 - 8, cr3 := 0, next := none,
    kernelStackBase := kernelStack.getD 0, kernelStackPtr := kernelStack.getD 0 + 4096,
    nextInTable := head }

theorem setUpProcess_eq (alloc : Allocator A) (kernel : Kernel A) (p stack pid e : Nat)
    (priority d t : Int) : setUpProcess alloc kernel p stack pid e priority d t =
      { kernel.modify p (newPcb stack pid priority d t
          (alloc.kmalloc kernel.allocator kernelStackSize).1 kernel.processTableHead) with
        allocator := (alloc.kmalloc kernel.allocator kernelStackSize).2
        memory := storeWord (storeWord kernel.memory (stack + 4096 - 4) e) (stack + 4096 - 8) 0
        processTableHead := some p } := by
  simp only [setUpProcess, allocateKernelStack, Kernel.kmalloc, Kernel.modify, PcbMemory.modify,
    update_idem, update_self, newPcb]

/-- What `fork_syscall` has written into the PCB of a child, after its pid, parent and
priority, when it puts it into the table. -/
def childPcb (parentPcb : Pcb) (stack : Nat) (cr3 kernelStack head : Option Addr) (pcb : Pcb) :
    Pcb :=
  { pcb with
    userStackPtr := childStackPtr stack parentPcb.userStackPtr parentPcb.userStackBase,
    cr3 := cr3.getD pcb.cr3, kernelStackBase := kernelStack.getD 0,
    kernelStackPtr := kernelStack.getD 0 + 4096, state := .ready, isNewChild := true,
    nextInTable := head }

section SetUpChild

variable {alloc : Allocator A} {kernel : Kernel A} {parent child : Addr}

theorem setUpChild_unmapped (different : parent ≠ child) (stack : Nat)
    (unmapped : (kernel.pcb parent).cr3 = 0) :
    setUpChild alloc kernel parent child stack =
      (some (), { kernel.modify child (childPcb (kernel.pcb parent) stack none
          (alloc.kmalloc kernel.allocator kernelStackSize).1 kernel.processTableHead) with
        allocator := (alloc.kmalloc kernel.allocator kernelStackSize).2
        memory := copyMemory stack (kernel.pcb parent).userStackBase 4096 kernel.memory
        processTableHead := some child }) := by
  simp only [setUpChild, copyCr3, allocateKernelStack, Kernel.kmalloc, Kernel.modify,
    PcbMemory.modify, update_of_ne different, unmapped, ne_eq, not_true, if_false, update_idem,
    update_self, childPcb, Option.getD_none]

theorem setUpChild_mapped (different : parent ≠ child) (stack : Nat)
    (mapped : (kernel.pcb parent).cr3 ≠ 0) {table : Addr} {a : A}
    (given : alloc.kmalloc kernel.allocator 4096 = (some table, a)) :
    ∃ memory, setUpChild alloc kernel parent child stack =
      (some (), { kernel.modify child (childPcb (kernel.pcb parent) stack (some table)
          (alloc.kmalloc a kernelStackSize).1 kernel.processTableHead) with
        allocator := (alloc.kmalloc a kernelStackSize).2
        memory := memory
        processTableHead := some child }) := by
  refine ⟨copyPageTables (kernel.pcb parent).cr3 table
    (copyMemory stack (kernel.pcb parent).userStackBase 4096 kernel.memory), ?_⟩
  simp only [setUpChild, copyCr3, allocateKernelStack, Kernel.kmalloc, Kernel.modify,
    PcbMemory.modify, update_of_ne different, ne_eq, mapped, not_false_iff, if_true, given,
    update_idem, update_self, childPcb, Option.getD_some]

theorem setUpChild_fails (different : parent ≠ child) (stack : Nat)
    (mapped : (kernel.pcb parent).cr3 ≠ 0) {a : A}
    (given : alloc.kmalloc kernel.allocator 4096 = (none, a)) :
    ∃ change memory, setUpChild alloc kernel parent child stack =
      (none, { kernel.modify child change with allocator := a, memory := memory }) ∧
        ∀ pcb, (change pcb).proc = pcb.proc := by
  refine ⟨fun pcb => { pcb with
    userStackPtr := childStackPtr stack (kernel.pcb parent).userStackPtr
      (kernel.pcb parent).userStackBase, cr3 := 0 },
    copyMemory stack (kernel.pcb parent).userStackBase 4096 kernel.memory, ?_, ?_⟩
  · simp only [setUpChild, copyCr3, Kernel.kmalloc, Kernel.modify, PcbMemory.modify,
      update_of_ne different, ne_eq, mapped, not_false_iff, if_true, given, update_idem, update_self,
      Option.getD_none]
  · intro pcb
    simp only [Pcb.proc]

theorem Similar.childPcb {pcb pcb' parentPcb parentPcb' : Pcb} (same : Similar parentPcb parentPcb')
    (pid : pcb'.pid = pcb.pid) (pointer : pcb'.parent = pcb.parent)
    (priority : pcb'.priority = pcb.priority) (userStackBase : pcb'.userStackBase = pcb.userStackBase)
    {mapped : Option Addr} (cr3 : mapped = none → pcb'.cr3 = pcb.cr3) (stack : Nat)
    (kernelStack head head' : Option Addr) :
    Similar (childPcb parentPcb stack mapped kernelStack head pcb)
      (childPcb parentPcb' stack mapped kernelStack head' pcb') := by
  refine ⟨pid, rfl, ?_, ?_, priority, pointer, rfl, userStackBase, fun clash => by cases clash⟩
  · simp only [Process.childPcb, same.userStackPtr, same.userStackBase]
  · cases mapped with
    | none => exact cr3 rfl
    | some table => rfl

end SetUpChild

namespace Pair

variable {kernel kernel' : Kernel A} {processes : Processes} {p : Addr}

theorem setUpProcess (pair : Pair processes kernel kernel') (sound : processes.Sound)
    (fresh : p ∉ processes.table) (alloc : Allocator A) (stack pid e : Nat) (priority d t : Int)
    (parent : (kernel'.pcb p).parent = (kernel.pcb p).parent)
    (isNewChild : (kernel'.pcb p).isNewChild = (kernel.pcb p).isNewChild) :
    Pair { processes.modify p fun proc =>
          { proc with pid := pid, state := .new, priority := priority } with
        table := p :: processes.table }
      (setUpProcess alloc kernel p stack pid e priority d t)
      (setUpProcess alloc kernel' p stack pid e priority d t) := by
  rw [setUpProcess_eq, setUpProcess_eq, pair.allocator]
  have shown := pair.refines.write sound fresh (newPcb stack pid priority d t
      (alloc.kmalloc kernel.allocator kernelStackSize).1 kernel.processTableHead)
    (fun proc => { proc with pid := pid, state := .new, priority := priority }) (fun _ => rfl)
  have written := ((pair.write sound fresh _ (newPcb stack pid priority d t
      (alloc.kmalloc kernel.allocator kernelStackSize).1 kernel'.processTableHead) shown rfl
    rfl).allocate (alloc.kmalloc kernel.allocator kernelStackSize).2).setMemory
      (storeWord (storeWord kernel.memory (stack + 4096 - 4) e) (stack + 4096 - 8) 0)
      (storeWord (storeWord kernel'.memory (stack + 4096 - 4) e) (stack + 4096 - 8) 0)
  refine written.push (written.refines.push ?_) rfl rfl ?_ ?_
  · simp [Kernel.modify, PcbMemory.modify, newPcb]
  · simp [Kernel.modify, PcbMemory.modify, newPcb]
  · simp only [Kernel.modify, PcbMemory.modify, update_self]
    exact ⟨rfl, rfl, rfl, rfl, rfl, parent, isNewChild, rfl, fun clash => by cases clash⟩

/-- `create_process`; a PCB in the memory it gets has the same parent and the same
`is_new_child` in both. -/
theorem createProcess (pair : Pair processes kernel kernel') (sound : processes.Sound)
    (alloc : IsolatingAllocator A)
    (live : ∀ q ∈ processes.table, alloc.live kernel.allocator q) {fuel : Nat} (pid e : Nat)
    (priority d t : Int) (enough : processes.table.length ≤ fuel)
    (stale : ∀ p, (∃ a stack a', alloc.kmalloc kernel.allocator pcbSize = (some p, a) ∧
        alloc.kmalloc a 4096 = (some stack, a')) →
      (kernel'.pcb p).parent = (kernel.pcb p).parent ∧
        (kernel'.pcb p).isNewChild = (kernel.pcb p).isNewChild) :
    ∃ process after after',
      createProcess alloc.toAllocator fuel kernel pid e priority d t = some (process, after) ∧
      createProcess alloc.toAllocator fuel kernel' pid e priority d t = some (process, after') ∧
      match process with
      | none => Pair processes after after'
      | some p => Pair ((processes.modify p fun proc =>
          { proc with pid := pid, priority := priority }).enter p) after after' := by
  obtain ⟨⟨process, a₁⟩, given₁⟩ : ∃ r, alloc.kmalloc kernel.allocator pcbSize = r := ⟨_, rfl⟩
  have given₁' : alloc.kmalloc kernel'.allocator pcbSize = (process, a₁) := by
    rw [pair.allocator, given₁]
  cases process with
  | none =>
      refine ⟨none, _, _, ?_, ?_, pair.allocate a₁⟩
      · simp only [Process.createProcess, kmalloc_eq _ given₁]
      · simp only [Process.createProcess, kmalloc_eq _ given₁']
  | some p =>
      have fresh : p ∉ processes.table := fun present => alloc.fresh given₁ (live p present)
      obtain ⟨⟨stack, a₂⟩, given₂⟩ : ∃ r, alloc.kmalloc a₁ 4096 = r := ⟨_, rfl⟩
      have stacked := kmalloc_eq { kernel with allocator := a₁ } given₂
      have stacked' := kmalloc_eq { kernel' with allocator := a₁ } given₂
      cases stack with
      | none =>
          refine ⟨none, _, _, ?_, ?_, pair.allocate a₂⟩
          · simp only [Process.createProcess, kmalloc_eq _ given₁, stacked]
          · simp only [Process.createProcess, kmalloc_eq _ given₁', stacked']
      | some stack =>
          obtain ⟨parent, isNewChild⟩ := stale p ⟨a₁, stack, a₂, given₁, given₂⟩
          have filled := (pair.allocate a₂).setUpProcess sound fresh alloc.toAllocator stack pid e
            priority d t parent isNewChild
          have absent : p ∉ processes.ready := fun queued => fresh (sound.listed queued)
          have listed : ∀ a ∈ processes.ready, a ∈ p :: processes.table :=
            fun a queued => List.mem_cons_of_mem p (sound.listed queued)
          obtain ⟨after, after', ran, ran', queued⟩ :=
            (filled.setState p .ready (by decide)).enqueueReady sound.ready_nodup absent
              List.mem_cons_self listed (sound.length_ready.trans enough)
          refine ⟨some p, after, after', ?_, ?_, ?_⟩
          · simp only [Process.createProcess, kmalloc_eq _ given₁, stacked, ran,
              Option.bind_eq_bind, Option.bind_some]
          · simp only [Process.createProcess, kmalloc_eq _ given₁', stacked', ran',
              Option.bind_eq_bind, Option.bind_some]
          · dsimp only
            rw [enter_modify _ p _ fun _ => .new]
            exact queued

theorem enterChild (pair : Pair processes kernel kernel') (sound : processes.Sound)
    (fresh : p ∉ processes.table) {parent : Addr} {stack : Nat} {mapped kernelStack : Option Addr}
    (child : Similar
      (childPcb (kernel.pcb parent) stack mapped kernelStack kernel.processTableHead (kernel.pcb p))
      (childPcb (kernel'.pcb parent) stack mapped kernelStack kernel'.processTableHead
        (kernel'.pcb p)))
    (a : A) (memory memory' : Nat → UInt8) :
    Pair { processes.setState p .ready with table := p :: processes.table }
      { kernel.modify p (childPcb (kernel.pcb parent) stack mapped kernelStack
          kernel.processTableHead) with
        allocator := a, memory := memory, processTableHead := some p }
      { kernel'.modify p (childPcb (kernel'.pcb parent) stack mapped kernelStack
          kernel'.processTableHead) with
        allocator := a, memory := memory', processTableHead := some p } := by
  have shown := pair.refines.write sound fresh
    (childPcb (kernel.pcb parent) stack mapped kernelStack kernel.processTableHead)
    (fun proc => { proc with state := .ready }) (by simp [childPcb, Pcb.proc])
  have written := ((pair.write sound fresh _ (childPcb (kernel'.pcb parent) stack mapped
    kernelStack kernel'.processTableHead) shown rfl rfl).allocate a).setMemory memory memory'
  refine written.push (written.refines.push ?_) rfl rfl ?_ ?_
  · simp [Kernel.modify, PcbMemory.modify, childPcb]
  · simp [Kernel.modify, PcbMemory.modify, childPcb]
  · simp only [Kernel.modify, PcbMemory.modify, update_self]
    exact child

theorem setUpChild (pair : Pair processes kernel kernel') (sound : processes.Sound)
    (fresh : p ∉ processes.table) (alloc : Allocator A) {parent : Addr}
    (present : parent ∈ processes.table) (stack : Nat)
    (named : (kernel'.pcb p).pid = (kernel.pcb p).pid ∧
      (kernel'.pcb p).parent = (kernel.pcb p).parent ∧
      (kernel'.pcb p).priority = (kernel.pcb p).priority)
    (stale : ((kernel.pcb parent).cr3 ≠ 0 → (alloc.kmalloc kernel.allocator 4096).1 ≠ none) →
      (kernel'.pcb p).userStackBase = (kernel.pcb p).userStackBase ∧
        ((kernel.pcb parent).cr3 = 0 → (kernel'.pcb p).cr3 = (kernel.pcb p).cr3)) :
    ∃ done after after', setUpChild alloc kernel parent p stack = (done, after) ∧
      setUpChild alloc kernel' parent p stack = (done, after') ∧
      match done with
      | none => Pair processes after after'
      | some () => Pair { processes.setState p .ready with table := p :: processes.table }
          after after' := by
  have different : parent ≠ p := fun same => fresh (same ▸ present)
  have same := pair.similar parent present
  have child : ∀ (mapped : Option Addr) (kernelStack head head' : Option Addr),
      (mapped = none → (kernel.pcb parent).cr3 = 0) →
      ((kernel.pcb parent).cr3 ≠ 0 → (alloc.kmalloc kernel.allocator 4096).1 ≠ none) →
        Similar (childPcb (kernel.pcb parent) stack mapped kernelStack head (kernel.pcb p))
          (childPcb (kernel'.pcb parent) stack mapped kernelStack head' (kernel'.pcb p)) := by
    intro mapped kernelStack head head' unmapped complete
    obtain ⟨userStackBase, cr3⟩ := stale complete
    exact same.childPcb named.1 named.2.1 named.2.2 userStackBase
      (fun nothing => cr3 (unmapped nothing)) stack kernelStack head head'
  by_cases unmapped : (kernel.pcb parent).cr3 = 0
  · have unmapped' : (kernel'.pcb parent).cr3 = 0 := same.cr3.trans unmapped
    refine ⟨some (), _, _, setUpChild_unmapped different stack unmapped,
      setUpChild_unmapped different stack unmapped', ?_⟩
    rw [pair.allocator]
    exact pair.enterChild sound fresh
      (child none _ _ _ (fun _ => unmapped) fun mapped => absurd unmapped mapped) _ _ _
  · have mapped' : (kernel'.pcb parent).cr3 ≠ 0 := same.cr3 ▸ unmapped
    obtain ⟨⟨table, a⟩, given⟩ : ∃ r, alloc.kmalloc kernel.allocator 4096 = r := ⟨_, rfl⟩
    have given' : alloc.kmalloc kernel'.allocator 4096 = (table, a) := by
      rw [pair.allocator, given]
    cases table with
    | none =>
        obtain ⟨change, memory, ran, shows⟩ := setUpChild_fails different stack unmapped given
        obtain ⟨change', memory', ran', _⟩ := setUpChild_fails different stack mapped' given'
        refine ⟨none, _, _, ran, ran', ?_⟩
        have shown := pair.refines.write sound fresh change id shows
        rw [Refines.modify_id] at shown
        exact ((pair.write sound fresh change change' shown rfl rfl).allocate a).setMemory
          memory memory'
    | some table =>
        obtain ⟨memory, ran⟩ := setUpChild_mapped different stack unmapped given
        obtain ⟨memory', ran'⟩ := setUpChild_mapped different stack mapped' given'
        refine ⟨some (), _, _, ran, ran', pair.enterChild sound fresh (child (some table) _ _ _ ?_ ?_)
          _ _ _⟩
        · intro clash
          cases clash
        · intro _
          simp [given]

theorem nameChild (pair : Pair processes kernel kernel') (sound : processes.Sound)
    {child : Addr} (fresh : child ∉ processes.table) (parent : Addr) :
    Pair (processes.forkChild parent child) (nameChild kernel parent child)
      (nameChild kernel' parent child) :=
  pair.countPid.write sound.countPid fresh _ _ (pair.refines.nameChild sound fresh parent) rfl rfl

theorem forkChild (pair : Pair processes kernel kernel') (sound : processes.Sound)
    (alloc : IsolatingAllocator A)
    (live : ∀ q ∈ processes.table, alloc.live kernel.allocator q) {fuel : Nat} {parent : Addr}
    (present : parent ∈ processes.table) (enough : processes.table.length ≤ fuel)
    (stale : ∀ child, (∃ a stack a', alloc.kmalloc kernel.allocator pcbSize = (some child, a) ∧
        alloc.kmalloc a 4096 = (some stack, a') ∧
          ((kernel.pcb parent).cr3 ≠ 0 → (alloc.kmalloc a' 4096).1 ≠ none)) →
      (kernel'.pcb child).userStackBase = (kernel.pcb child).userStackBase ∧
        ((kernel.pcb parent).cr3 = 0 → (kernel'.pcb child).cr3 = (kernel.pcb child).cr3)) :
    ∃ child after after',
      forkChild alloc.toAllocator fuel kernel parent = some (child, after) ∧
      forkChild alloc.toAllocator fuel kernel' parent = some (child, after') ∧
      match child with
      | none => Pair processes after after' ∨
          ∃ child, child ∉ processes.table ∧ Pair (processes.forkChild parent child) after after'
      | some child => Pair (processes.fork parent child) after after' := by
  obtain ⟨⟨child, a₁⟩, given₁⟩ : ∃ r, alloc.kmalloc kernel.allocator pcbSize = r := ⟨_, rfl⟩
  have given₁' : alloc.kmalloc kernel'.allocator pcbSize = (child, a₁) := by
    rw [pair.allocator, given₁]
  cases child with
  | none =>
      refine ⟨none, _, _, ?_, ?_, Or.inl (pair.allocate a₁)⟩
      · simp only [Process.forkChild, kmalloc_eq _ given₁]
      · simp only [Process.forkChild, kmalloc_eq _ given₁']
  | some child =>
      have fresh : child ∉ processes.table := fun member => alloc.fresh given₁ (live child member)
      have different : parent ≠ child := fun same => fresh (same ▸ present)
      have named := (pair.allocate a₁).nameChild sound fresh parent
      obtain ⟨⟨stack, a₂⟩, given₂⟩ : ∃ r, alloc.kmalloc a₁ 4096 = r := ⟨_, rfl⟩
      have stacked :=
        kmalloc_eq (Process.nameChild { kernel with allocator := a₁ } parent child) given₂
      have stacked' :=
        kmalloc_eq (Process.nameChild { kernel' with allocator := a₁ } parent child) given₂
      cases stack with
      | none =>
          refine ⟨none, _, _, ?_, ?_, Or.inr ⟨child, fresh, named.allocate a₂⟩⟩
          · simp only [Process.forkChild, kmalloc_eq _ given₁, stacked]
          · simp only [Process.forkChild, kmalloc_eq _ given₁', stacked']
      | some stack =>
          have same := pair.similar parent present
          have written : ∀ k : Kernel A, (Process.nameChild k parent child).pcb child =
              { k.pcb child with pid := k.nextPid % wordRange, parent := some parent,
                                 priority := (k.pcb parent).priority } := by
            intro k
            simp [Process.nameChild, Kernel.getNewPid, Kernel.modify, PcbMemory.modify]
          have kept : ∀ k : Kernel A, (Process.nameChild k parent child).pcb parent =
              k.pcb parent := by
            intro k
            simp [Process.nameChild, Kernel.getNewPid, Kernel.modify, PcbMemory.modify, different]
          obtain ⟨done, middle, middle', ran, ran', complete⟩ :=
            (named.allocate a₂).setUpChild (sound.forkChild parent child) fresh alloc.toAllocator
              present stack
              (by
                simp only [written]
                exact ⟨congrArg (· % wordRange) pair.nextPid, trivial, same.priority⟩)
              (by
                simp only [written, kept]
                exact fun mapped => stale child ⟨a₁, stack, a₂, given₁, given₂, mapped⟩)
          cases done with
          | none =>
              refine ⟨none, middle, middle', ?_, ?_, Or.inr ⟨child, fresh, complete⟩⟩
              · simp only [Process.forkChild, kmalloc_eq _ given₁, stacked, ran]
              · simp only [Process.forkChild, kmalloc_eq _ given₁', stacked', ran']
          | some done =>
              have absent : child ∉ processes.ready := fun queued => fresh (sound.listed queued)
              have listed : ∀ a ∈ processes.ready, a ∈ child :: processes.table :=
                fun a queued => List.mem_cons_of_mem child (sound.listed queued)
              obtain ⟨after, after', queued, queued', entered⟩ := complete.enqueueReady
                sound.ready_nodup absent List.mem_cons_self listed (sound.length_ready.trans enough)
              refine ⟨some child, after, after', ?_, ?_, ?_⟩
              · simp only [Process.forkChild, kmalloc_eq _ given₁, stacked, ran, queued,
                  Option.bind_eq_bind, Option.bind_some]
              · simp only [Process.forkChild, kmalloc_eq _ given₁', stacked', ran', queued',
                  Option.bind_eq_bind, Option.bind_some]
              · dsimp only
                rw [Processes.fork, enter_eq]
                exact entered

end Pair

end ApnaOS.Process
