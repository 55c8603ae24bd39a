import ApnaOS.Lib.Chain
import ApnaOS.Process.Processes

/-!
# The linked queue

When the pointers of a queue are a list of processes, and what the queue functions
do to it.
-/

set_option autoImplicit false

namespace ApnaOS.Process

open ApnaOS.Lib
open Function (update update_self update_of_ne)

def PcbMemory.next (pcb : PcbMemory) (a : Addr) : Option Addr := (pcb a).next

structure IsQueue (pcb : PcbMemory) (queue : ProcessQueue) (items : List Addr) : Prop where
  chain : Chain pcb.next queue.front items none
  rear : queue.rear = items.getLast?

/-- `pcb'` differs from `pcb` in the pointers of the queue only. -/
def OnlyNext (pcb pcb' : PcbMemory) : Prop := ∀ a, ∃ next, pcb' a = { pcb a with next := next }

namespace OnlyNext

variable {pcb pcb' pcb'' : PcbMemory}

theorem refl (pcb : PcbMemory) : OnlyNext pcb pcb := fun a => ⟨(pcb a).next, rfl⟩

theorem trans (first : OnlyNext pcb pcb') (second : OnlyNext pcb' pcb'') : OnlyNext pcb pcb'' := by
  intro a
  obtain ⟨next, here⟩ := first a
  obtain ⟨next', there⟩ := second a
  exact ⟨next', by rw [there, here]⟩

theorem setNext (pcb : PcbMemory) (p : Addr) (next : Option Addr) :
    OnlyNext pcb (pcb.setNext p next) := by
  intro a
  by_cases same : a = p
  · exact ⟨next, by rw [same]; simp [PcbMemory.setNext, PcbMemory.modify]⟩
  · exact ⟨(pcb a).next, by simp [PcbMemory.setNext, PcbMemory.modify, same]⟩

theorem field {β : Type} (only : OnlyNext pcb pcb') (field : Pcb → β)
    (other : ∀ process next, field { process with next := next } = field process) (a : Addr) :
    field (pcb' a) = field (pcb a) := by
  obtain ⟨next, same⟩ := only a
  rw [same, other]

end OnlyNext

theorem next_setNext (pcb : PcbMemory) (p : Addr) (next : Option Addr) :
    (pcb.setNext p next).next = update pcb.next p next := by
  funext a
  by_cases same : a = p
  · rw [same]
    simp [PcbMemory.next, PcbMemory.setNext, PcbMemory.modify]
  · simp [PcbMemory.next, PcbMemory.setNext, PcbMemory.modify, same]

/-! ## Enqueueing -/

/-- The loop stops at the element behind which the order puts the newcomer. -/
theorem insertionPoint_spec (key : Pcb → Int) {pcb : PcbMemory} {p current : Addr}
    {rest : List Addr} (fuel : Nat) (chain : Chain pcb.next (some current) (current :: rest) none)
    (enough : rest.length < fuel) :
    ∃ front last back, insertionPoint key pcb p fuel current = some last ∧
      current :: rest = front ++ last :: back ∧
      current :: insertByKey (fun a => key (pcb a)) p rest = front ++ last :: p :: back := by
  induction rest generalizing fuel current with
  | nil =>
      obtain ⟨m, rfl⟩ : ∃ m, fuel = m + 1 := ⟨fuel - 1, by omega⟩
      have last : (pcb current).next = none := chain.2
      refine ⟨[], current, [], ?_, rfl, rfl⟩
      simp only [insertionPoint, last]
  | cons q rest ih =>
      obtain ⟨m, rfl⟩ : ∃ m, fuel = m + 1 := ⟨fuel - 1, by omega⟩
      have next : (pcb current).next = some q := chain.2.1
      by_cases not_larger : key (pcb q) ≤ key (pcb p)
      · have below : Chain pcb.next (some q) (q :: rest) none := ⟨rfl, chain.2.2⟩
        have shorter : rest.length < m := by
          rw [List.length_cons] at enough
          omega
        obtain ⟨front, last, back, found, split, order⟩ := ih m below shorter
        refine ⟨current :: front, last, back, ?_, ?_, ?_⟩
        · simp only [insertionPoint, next, not_larger, if_true]
          exact found
        · rw [split, List.cons_append]
        · rw [insertByKey_cons_of_le (fun a => key (pcb a)) p rest not_larger, order, List.cons_append]
      · refine ⟨[], current, q :: rest, ?_, rfl, ?_⟩
        · simp only [insertionPoint, next, not_larger, if_false]
        · rw [insertByKey_cons_of_lt (fun a => key (pcb a)) p rest (not_le.mp not_larger), List.nil_append]

theorem enqueueBy_spec (key : Pcb → Int)
    (other : ∀ process next, key { process with next := next } = key process)
    {pcb : PcbMemory} {queue : ProcessQueue} {items : List Addr} {p : Addr} (fuel : Nat)
    (isQueue : IsQueue pcb queue items) (nodup : items.Nodup) (fresh : p ∉ items)
    (enough : items.length ≤ fuel) :
    ∃ pcb' queue', enqueueBy key fuel pcb queue p = some (pcb', queue') ∧ OnlyNext pcb pcb' ∧
      IsQueue pcb' queue' (insertByKey (fun a => key (pcb a)) p items) := by
  have cleared := OnlyNext.setNext pcb p none
  have chain : Chain (pcb.setNext p none).next queue.front items none := by
    rw [next_setNext]
    exact isQueue.chain.update_outside fresh none
  have keys : (fun a => key (pcb.setNext p none a)) = fun a => key (pcb a) :=
    funext (cleared.field key other)
  have key_p : key (pcb.setNext p none p) = key (pcb p) := congrFun keys p
  cases items with
  | nil =>
      have empty : queue.front = none := isQueue.chain
      refine ⟨pcb.setNext p none, ⟨some p, some p⟩, ?_, cleared, ⟨rfl, ?_⟩, rfl⟩
      · simp only [enqueueBy, empty]
      · rw [next_setNext, update_self]
        rfl
  | cons first rest =>
      have front : queue.front = some first := isQueue.chain.1
      have key_first : key (pcb.setNext p none first) = key (pcb first) := congrFun keys first
      rw [front] at chain
      by_cases lower : key (pcb p) < key (pcb first)
      · refine ⟨(pcb.setNext p none).setNext p (some first), { queue with front := some p }, ?_,
          cleared.trans (.setNext _ _ _), ?_⟩
        · simp only [enqueueBy, front, key_p, key_first, lower, if_true]
        · rw [insertByKey_cons_of_lt (fun a => key (pcb a)) p rest lower]
          refine ⟨⟨rfl, ?_⟩, ?_⟩
          · rw [next_setNext, update_self]
            exact chain.update_outside fresh _
          · rw [List.getLast?_cons_cons]
            exact isQueue.rear
      · obtain ⟨low, last, back, found, split, order⟩ :=
          insertionPoint_spec key (p := p) fuel chain enough
        rw [keys, ← insertByKey_cons_of_le (fun a => key (pcb a)) p rest (not_lt.mp lower)] at order
        have rear := isQueue.rear
        rw [split] at chain nodup fresh rear
        have different : p ≠ last := by
          intro same
          exact fresh (same ▸ List.mem_append_right low List.mem_cons_self)
        have behind := chain.next_eq
        refine ⟨((pcb.setNext p none).setNext p back.head?).setNext last (some p),
          if back.head? = none then { queue with rear := some p } else queue, ?_,
          (cleared.trans (.setNext _ _ _)).trans (.setNext _ _ _), ?_, ?_⟩
        · have stored : ((((pcb.setNext p none).setNext p back.head?).setNext last (some p)) p).next
              = back.head? := by
            simp [PcbMemory.setNext, PcbMemory.modify, different]
          rw [PcbMemory.next] at behind
          simp only [enqueueBy, front, key_p, key_first, lower, if_false, found, behind, stored,
            Option.bind_eq_bind, Option.bind_some]
        · have spliced := chain.insert_after nodup fresh
          rw [order, next_setNext, next_setNext, ← behind]
          split
          · exact front ▸ spliced
          · exact front ▸ spliced
        · rw [order]
          cases back with
          | nil => simp
          | cons b back =>
              rw [List.head?_cons, if_neg (by simp), rear]
              simp

theorem enqueueBy_only {key : Pcb → Int} {fuel : Nat} {pcb pcb' : PcbMemory}
    {queue queue' : ProcessQueue} {p : Addr}
    (ran : enqueueBy key fuel pcb queue p = some (pcb', queue')) : OnlyNext pcb pcb' := by
  have cleared := OnlyNext.setNext pcb p none
  rw [enqueueBy] at ran
  split at ran
  · simp only [Option.some.injEq, Prod.mk.injEq] at ran
    rw [← ran.1]
    exact cleared
  · split at ran
    · simp only [Option.some.injEq, Prod.mk.injEq] at ran
      rw [← ran.1]
      exact cleared.trans (OnlyNext.setNext _ _ _)
    · obtain ⟨current, _, ran⟩ := Option.bind_eq_some_iff.mp ran
      simp only [Option.some.injEq, Prod.mk.injEq] at ran
      rw [← ran.1]
      exact (cleared.trans (OnlyNext.setNext _ _ _)).trans (OnlyNext.setNext _ _ _)

/-! ## Dequeueing -/

theorem dequeueProcess_only (pcb : PcbMemory) (queue : ProcessQueue) :
    OnlyNext pcb (dequeueProcess pcb queue).2.1 := by
  rw [dequeueProcess]
  split
  · exact .refl pcb
  · exact OnlyNext.setNext _ _ _

theorem dequeueProcess_spec {pcb : PcbMemory} {queue : ProcessQueue} {items : List Addr}
    (isQueue : IsQueue pcb queue items) (nodup : items.Nodup) :
    ∃ pcb' queue', dequeueProcess pcb queue = (items.head?, pcb', queue') ∧ OnlyNext pcb pcb' ∧
      IsQueue pcb' queue' items.tail := by
  cases items with
  | nil =>
      have empty : queue.front = none := isQueue.chain
      exact ⟨pcb, queue, by simp only [dequeueProcess, empty, List.head?_nil], .refl pcb, isQueue⟩
  | cons p rest =>
      have front : queue.front = some p := isQueue.chain.1
      have absent : p ∉ rest := (List.nodup_cons.mp nodup).1
      refine ⟨pcb.setNext p none,
        ⟨(pcb p).next, if (pcb p).next = none then none else queue.rear⟩, ?_, .setNext _ _ _, ?_, ?_⟩
      · simp only [dequeueProcess, front, List.head?_cons]
      · rw [next_setNext]
        exact isQueue.chain.2.update_outside absent none
      · have next : (pcb p).next = rest.head? := isQueue.chain.2.start_eq
        rw [next, isQueue.rear]
        cases rest with
        | nil => rfl
        | cons q rest => simp

end ApnaOS.Process
