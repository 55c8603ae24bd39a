import ApnaOS.Lib.Transition
import ApnaOS.Process.Linked

/-!
# The linked queues over whole runs

Each of the three enqueue functions, in any order with `dequeue_process`, keeps a
queue that is sorted by its field, with equal values in order of arrival.
-/

set_option autoImplicit false

namespace ApnaOS.Process

open ApnaOS.Lib

/-- The field that orders a queue. -/
inductive QueueOrder where
  | priority
  | deadline
  | timeToRun

def QueueOrder.key : QueueOrder → Pcb → Int
  | .priority => Pcb.priority
  | .deadline => Pcb.deadline
  | .timeToRun => Pcb.timeToRun

def QueueOrder.enqueue :
    QueueOrder → Nat → PcbMemory → ProcessQueue → Addr → Option (PcbMemory × ProcessQueue)
  | .priority => enqueueProcess
  | .deadline => enqueueProcessEdf
  | .timeToRun => enqueueProcessSjf

theorem QueueOrder.enqueue_eq (order : QueueOrder) : order.enqueue = enqueueBy order.key := by
  cases order <;> rfl

theorem QueueOrder.key_next (order : QueueOrder) (process : Pcb) (next : Option Addr) :
    order.key { process with next := next } = order.key process := by
  cases order <;> rfl

/-- `waiting` are the processes in the queue, in the order they were enqueued. -/
structure QueueState where
  pcb : PcbMemory
  queue : ProcessQueue
  waiting : List Addr

/-- A process that is not in the queue is enqueued, whatever was written to its PCB
before. -/
inductive QueueAction where
  | enqueue (p : Addr) (process : Pcb)
  | dequeue

def queueStep (order : QueueOrder) (state : QueueState) : QueueAction → Option QueueState
  | .enqueue p process =>
      if p ∈ state.waiting then none
      else do
        let pcb := state.pcb.modify p fun _ => process
        let (pcb, queue) ← order.enqueue state.waiting.length pcb state.queue p
        some { pcb := pcb, queue := queue, waiting := state.waiting ++ [p] }
  | .dequeue =>
      let (returned, pcb, queue) := dequeueProcess state.pcb state.queue
      some { pcb := pcb, queue := queue, waiting := returned.elim state.waiting state.waiting.erase }

def queueSystem (order : QueueOrder) : System QueueState QueueAction where
  initial state := state.queue = initializeQueue ∧ state.waiting = []
  step := queueStep order

/-- The queue is the list `items`, which serves the waiting processes in order. -/
structure SortedQueue (order : QueueOrder) (state : QueueState) (items : List Addr) : Prop where
  isQueue : IsQueue state.pcb state.queue items
  serves : Serves (fun a => order.key (state.pcb a)) state.waiting items
  nodup : state.waiting.Nodup

namespace SortedQueue

variable {order : QueueOrder} {state : QueueState} {items : List Addr}

theorem queued_iff (sorted : SortedQueue order state items) {p : Addr} :
    p ∈ items ↔ p ∈ state.waiting := sorted.serves.perm.mem_iff

theorem items_nodup (sorted : SortedQueue order state items) : items.Nodup :=
  sorted.serves.perm.nodup_iff.mpr sorted.nodup

theorem enqueue (sorted : SortedQueue order state items) {p : Addr} (fresh : p ∉ state.waiting)
    (process : Pcb) :
    ∃ next items', queueStep order state (.enqueue p process) = some next ∧
      SortedQueue order next items' := by
  let pcb : PcbMemory := state.pcb.modify p fun _ => process
  have unqueued : p ∉ items := fun queued => fresh (sorted.queued_iff.mp queued)
  have same : ∀ a, a ≠ p → pcb a = state.pcb a := fun a other => Function.update_of_ne other _ _
  have isQueue : IsQueue pcb state.queue items := by
    refine ⟨sorted.isQueue.chain.congr ?_, sorted.isQueue.rear⟩
    intro a queued
    have other : a ≠ p := fun equal => unqueued (equal ▸ queued)
    rw [PcbMemory.next, PcbMemory.next, same a other]
  have serves : Serves (fun a => order.key (pcb a)) state.waiting items := by
    refine sorted.serves.congr fun a waits => ?_
    have other : a ≠ p := fun equal => fresh (equal ▸ waits)
    simp only [same a other]
  obtain ⟨pcb', queue', ran, only, isQueue'⟩ := enqueueBy_spec order.key order.key_next
    state.waiting.length isQueue sorted.items_nodup unqueued
    (Nat.le_of_eq sorted.serves.perm.length_eq)
  rw [← order.enqueue_eq] at ran
  refine ⟨⟨pcb', queue', state.waiting ++ [p]⟩, _, ?_, isQueue', ?_, ?_⟩
  · simp only [queueStep, fresh, if_false]
    exact congrArg (Option.bind · _) ran
  · exact (serves.insertByKey p).congr fun a _ => only.field order.key order.key_next a
  · exact List.nodup_append.mpr ⟨sorted.nodup, List.nodup_singleton p, by
      intro a waits b new equal
      rw [List.mem_singleton.mp new] at equal
      exact fresh (equal ▸ waits)⟩

theorem dequeue (sorted : SortedQueue order state items) :
    ∃ pcb' queue', dequeueProcess state.pcb state.queue = (items.head?, pcb', queue') ∧
      SortedQueue order
        ⟨pcb', queue', items.head?.elim state.waiting state.waiting.erase⟩ items.tail := by
  obtain ⟨pcb', queue', ran, only, isQueue'⟩ :=
    dequeueProcess_spec sorted.isQueue sorted.items_nodup
  refine ⟨pcb', queue', ran, isQueue', ?_, ?_⟩
  · cases items with
    | nil => exact sorted.serves.congr fun a _ => only.field order.key order.key_next a
    | cons p rest =>
        exact (sorted.serves.tail sorted.nodup).congr
          fun a _ => only.field order.key order.key_next a
  · cases items with
    | nil => exact sorted.nodup
    | cons p rest => exact sorted.nodup.erase p

theorem step (sorted : SortedQueue order state items) {action : QueueAction} {next : QueueState}
    (taken : queueStep order state action = some next) :
    ∃ items', SortedQueue order next items' := by
  cases action with
  | enqueue p process =>
      have fresh : p ∉ state.waiting := by
        intro waits
        simp [queueStep, waits] at taken
      obtain ⟨next', items', ran, sorted'⟩ := sorted.enqueue fresh process
      rw [ran] at taken
      cases taken
      exact ⟨items', sorted'⟩
  | dequeue =>
      obtain ⟨pcb', queue', ran, sorted'⟩ := sorted.dequeue
      simp only [queueStep, ran] at taken
      cases taken
      exact ⟨items.tail, sorted'⟩

end SortedQueue

theorem reachable_sortedQueue {order : QueueOrder} {state : QueueState}
    (reachable : (queueSystem order).Reachable state) :
    ∃ items, SortedQueue order state items := by
  have base : ∀ first, (queueSystem order).initial first →
      ∃ items, SortedQueue order first items := by
    rintro first ⟨empty, nobody⟩
    refine ⟨[], ⟨?_, ?_⟩, ?_, ?_⟩
    · rw [empty]
      rfl
    · rw [empty]
      rfl
    · rw [nobody]
      exact Serves.empty _
    · rw [nobody]
      exact List.nodup_nil
  refine System.Reachable.invariant base ?_ reachable
  rintro state action next ⟨items, sorted⟩ taken
  exact sorted.step taken

/-- What a linked queue promises when its chain from `front` is `items`. -/
structure StableSorted (order : QueueOrder) (state : QueueState) (items : List Addr) : Prop where
  chain : Chain state.pcb.next state.queue.front items none
  sorted : Serves (fun a => order.key (state.pcb a)) state.waiting items
  rear : state.queue.rear = items.getLast?
  empty : state.queue.rear = none ↔ state.queue.front = none
  accepts : ∀ p process, p ∉ state.waiting →
    ∃ next, queueStep order state (.enqueue p process) = some next
  returns : ∃ pcb' queue', dequeueProcess state.pcb state.queue = (items.head?, pcb', queue') ∧
    (∀ p, items.head? = some p → (pcb' p).next = none) ∧
    Chain pcb'.next queue'.front items.tail none ∧ queue'.rear = items.tail.getLast?

theorem dequeueProcess_clears {pcb pcb' : PcbMemory} {queue queue' : ProcessQueue} {p : Addr}
    (ran : dequeueProcess pcb queue = (some p, pcb', queue')) : (pcb' p).next = none := by
  cases front : queue.front with
  | none =>
      simp only [dequeueProcess, front] at ran
      cases ran
  | some first =>
      simp only [dequeueProcess, front] at ran
      cases ran
      simp [PcbMemory.setNext, PcbMemory.modify]

/-- After every interleaving of an enqueue function with `dequeue_process` the chain is
the waiting processes sorted by the field, with equal values in order of arrival. -/
theorem linked_queue_stable_sorted (order : QueueOrder) (state : QueueState)
    (reachable : (queueSystem order).Reachable state) :
    ∃ items, StableSorted order state items := by
  obtain ⟨items, sorted⟩ := reachable_sortedQueue reachable
  obtain ⟨pcb', queue', ran, sorted'⟩ := sorted.dequeue
  have chain := sorted.isQueue.chain
  have rear := sorted.isQueue.rear
  refine ⟨items, chain, sorted.serves, rear, ?_, ?_, pcb', queue', ran, ?_, sorted'.isQueue.chain,
    sorted'.isQueue.rear⟩
  · rw [rear, chain.start_eq, List.getLast?_eq_none_iff, List.head?_eq_none_iff]
  · intro p process fresh
    obtain ⟨next, _, taken, _⟩ := sorted.enqueue fresh process
    exact ⟨next, taken⟩
  · intro p first
    rw [first] at ran
    exact dequeueProcess_clears ran

def emptyQueue : QueueState := ⟨fun _ => Pcb.zero, initializeQueue, []⟩

/-- Two equal deadlines around a smaller and a larger one, and the first process is taken out. -/
def queueActions : List QueueAction :=
  [.enqueue 10 { Pcb.zero with deadline := 5 }, .enqueue 20 { Pcb.zero with deadline := 2 },
    .enqueue 30 { Pcb.zero with deadline := 9 }, .enqueue 40 { Pcb.zero with deadline := 5 },
    .dequeue]

theorem linked_queue_stable_sorted_after_ties : ∃ trace last,
    (queueSystem .deadline).record emptyQueue queueActions = some (trace, last) ∧
      last.waiting = [10, 30, 40] ∧ ∃ items, StableSorted .deadline last items := by
  have runs : ((queueSystem .deadline).record emptyQueue queueActions).any fun run =>
      decide (run.2.waiting = [10, 30, 40]) := by
    decide +kernel
  obtain ⟨⟨trace, last⟩, recorded, waiting⟩ := (Option.any_eq_true ..).mp runs
  exact ⟨trace, last, recorded, of_decide_eq_true waiting,
    linked_queue_stable_sorted .deadline last
      ⟨emptyQueue, trace, ⟨rfl, rfl⟩, System.trace_of_record recorded⟩⟩

end ApnaOS.Process
