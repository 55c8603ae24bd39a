import Mathlib.Data.Nat.Basic
import ApnaOS.Lib.StableQueue
import ApnaOS.Lib.Transition
import ApnaOS.Process.RbErase
import ApnaOS.Process.RbInsert

/-!
# The CFS run queue

`cfs_enqueue` and `cfs_dequeue_min` on the tree `cfs_rq`.  A process and its
`vr_node` have one address.  The tree, read in order, is the order of service:
smaller `vruntime` first, equal ones in order of arrival.
-/

set_option autoImplicit false

namespace ApnaOS.Process

open ApnaOS.Lib
open Function (update update_self update_of_ne)

/-- `cfs_rq` with its nodes, and the `vruntime` of every process. -/
structure CfsQueue where
  tree : RbTree
  vruntime : Addr → UInt64

/-- The loop of `cfs_enqueue`: where to link `p`, and below which node. -/
def findLink (cfs : CfsQueue) (p : Addr) :
    (fuel : Nat) → Link → Option Addr → Option (Link × Option Addr)
  | 0, _, _ => none
  | fuel + 1, link, parent =>
      match cfs.tree.load link with
      | none => some (link, parent)
      | some q =>
          if cfs.vruntime p < cfs.vruntime q then findLink cfs p fuel (.child .left q) (some q)
          else findLink cfs p fuel (.child .right q) (some q)

def cfsEnqueue (fuel : Nat) (cfs : CfsQueue) (p : Addr) : Option CfsQueue := do
  let (link, parent) ← findLink cfs p fuel .root none
  let tree := rbLinkNode cfs.tree p parent link
  let tree ← rbInsertColor fuel tree p
  some { cfs with tree := tree }

/-- The process returned (`none` is NULL) and the queue left. -/
def cfsDequeueMin (fuel : Nat) (cfs : CfsQueue) : Option (Option Addr × CfsQueue) := do
  let first ← rbFirst fuel cfs.tree
  match first with
  | none => some (none, cfs)
  | some n =>
      let tree ← rbErase fuel cfs.tree n
      some (some n, { cfs with tree := tree })

/-! ## Runs -/

/-- The queue, and the processes enqueued and not yet dequeued in order of arrival. -/
structure CfsState where
  cfs : CfsQueue
  pending : List Addr

inductive CfsAction where
  | enqueue (p : Addr) (vruntime : UInt64)
  | dequeueMin

/-- Enough iterations for every loop. -/
def CfsState.fuel (state : CfsState) : Nat := state.pending.length + 1

def CfsState.assign (state : CfsState) (p : Addr) (vruntime : UInt64) : CfsQueue :=
  { state.cfs with vruntime := update state.cfs.vruntime p vruntime }

def cfsStep (state : CfsState) : CfsAction → Option CfsState
  | .enqueue p vruntime =>
      if p ∈ state.pending then none
      else do
        let cfs ← cfsEnqueue state.fuel (state.assign p vruntime) p
        some { cfs := cfs, pending := state.pending ++ [p] }
  | .dequeueMin => do
      let (first, cfs) ← cfsDequeueMin state.fuel state.cfs
      some { cfs := cfs, pending := match first with
        | some p => state.pending.erase p
        | none => state.pending }

/-- Every interleaving of `cfs_enqueue` of processes not in the tree and
`cfs_dequeue_min`. -/
def cfsSystem : System CfsState CfsAction where
  initial state := state.cfs.tree.root = none ∧ state.pending = []
  step := cfsStep

/-! ## Finding the place -/

theorem load_plug {tree : RbTree} {path : Zipper Addr} {t : Shape Addr}
    (rep : Represents tree (path.plug t)) : tree.load (linkOf path) = t.top := by
  cases path with
  | nil => exact rep.root
  | cons frame above => rw [linkOf, RbTree.load, RbTree.child, node_frame rep, child_nodeOf]

/-- The loop stops at the hole behind everything that is not larger. -/
theorem findLink_spec {cfs : CfsQueue} {p : Addr} (fuel : Nat) {path : Zipper Addr}
    {t : Shape Addr} (rep : Represents cfs.tree (path.plug t))
    (sorted : t.elements.Pairwise fun a b => cfs.vruntime a ≤ cfs.vruntime b)
    (enough : t.elements.length < fuel) :
    ∃ (place : Zipper Addr) (low high : List Addr), place.plug .leaf = path.plug t ∧
      findLink cfs p fuel (linkOf path) path.top = some (linkOf place, place.top) ∧
      t.elements = low ++ high ∧ place.before = path.before ++ low ∧
      place.after = high ++ path.after ∧
      (∀ a ∈ low, cfs.vruntime a ≤ cfs.vruntime p) ∧
      ∀ a ∈ high, cfs.vruntime p < cfs.vruntime a := by
  induction t generalizing fuel path with
  | leaf =>
      obtain ⟨m, rfl⟩ : ∃ m, fuel = m + 1 := ⟨fuel - 1, by omega⟩
      refine ⟨path, [], [], rfl, ?_, rfl, by simp, by simp, by simp, by simp⟩
      simp only [findLink, load_plug rep, Shape.top]
  | node red left q right ihl ihr =>
      obtain ⟨m, rfl⟩ : ∃ m, fuel = m + 1 := ⟨fuel - 1, by omega⟩
      simp only [Shape.elements, List.length_append, List.length_cons] at enough
      have load : cfs.tree.load (linkOf path) = some q := load_plug rep
      obtain ⟨lefts, rights, across⟩ := List.pairwise_append.mp sorted
      obtain ⟨behind, rights⟩ := List.pairwise_cons.mp rights
      by_cases smaller : cfs.vruntime p < cfs.vruntime q
      · have lower : Represents cfs.tree (Zipper.plug left (⟨.left, red, q, right⟩ :: path)) := rep
        obtain ⟨place, low, high, whole, found, split, before, after, below, above⟩ :=
          ihl m lower lefts (by omega)
        refine ⟨place, low, high ++ q :: right.elements, whole, ?_, ?_, before, ?_, below, ?_⟩
        · simp only [findLink, load, smaller, if_true]
          exact found
        · rw [Shape.elements, split, List.append_assoc]
        · rw [after]
          simp [Zipper.after]
        · intro a member
          rcases List.mem_append.mp member with here | there
          · exact above a here
          · rcases List.mem_cons.mp there with same | later
            · rw [same]
              exact smaller
            · exact UInt64.lt_of_lt_of_le smaller (behind a later)
      · have lower : Represents cfs.tree (Zipper.plug right (⟨.right, red, q, left⟩ :: path)) := rep
        obtain ⟨place, low, high, whole, found, split, before, after, below, above⟩ :=
          ihr m lower rights (by omega)
        have not_larger : cfs.vruntime q ≤ cfs.vruntime p := UInt64.not_lt.mp smaller
        refine ⟨place, left.elements ++ q :: low, high, whole, ?_, ?_, ?_, after, ?_, above⟩
        · simp only [findLink, load, smaller, if_false]
          exact found
        · rw [Shape.elements, split]
          simp
        · rw [before]
          simp [Zipper.before]
        · intro a member
          rcases List.mem_append.mp member with here | there
          · exact UInt64.le_trans (across a here q List.mem_cons_self) not_larger
          · rcases List.mem_cons.mp there with same | later
            · rw [same]
              exact not_larger
            · exact below a later

theorem cfsEnqueue_spec {cfs : CfsQueue} {p : Addr} (fuel : Nat) {shape : Shape Addr}
    (rep : Represents cfs.tree shape) (valid : shape.Valid)
    (sorted : shape.elements.Pairwise fun a b => cfs.vruntime a ≤ cfs.vruntime b)
    (fresh : p ∉ shape.elements) (enough : shape.elements.length < fuel) :
    ∃ (tree' : RbTree) (shape' : Shape Addr) (low high : List Addr),
      cfsEnqueue fuel cfs p = some { cfs with tree := tree' } ∧
      Represents tree' shape' ∧ shape'.Valid ∧ shape.elements = low ++ high ∧
      shape'.elements = low ++ p :: high ∧ (∀ a ∈ low, cfs.vruntime a ≤ cfs.vruntime p) ∧
      ∀ a ∈ high, cfs.vruntime p < cfs.vruntime a := by
  obtain ⟨place, low, high, whole, found, split, before, after, below, above⟩ :=
    @findLink_spec cfs p fuel [] shape rep sorted enough
  rw [Zipper.plug] at whole
  rw [← whole] at rep valid fresh enough
  have linked := rbLinkNode_spec rep fresh
  obtain ⟨n, leaf_balanced, fits, _⟩ := Zipper.exists_fits valid
  cases leaf_balanced
  have room := Zipper.length_le .leaf place
  obtain ⟨tree', shape', ran, rep', same, valid'⟩ := rbInsertColor_spec fuel linked rfl rfl
    (.red .leaf .leaf rfl rfl) fits (by omega)
  refine ⟨tree', shape', low, high, ?_, rep', valid', split, ?_, below, above⟩
  · have found' : findLink cfs p fuel .root none = some (linkOf place, place.top) := found
    simp only [cfsEnqueue, found', Option.bind_eq_bind, Option.bind_some, ran]
  · rw [same, Zipper.elements_plug, before, after]
    simp [Zipper.before, Zipper.after, Shape.elements]

theorem cfsDequeueMin_spec {cfs : CfsQueue} (fuel : Nat) {shape : Shape Addr}
    (rep : Represents cfs.tree shape) (valid : shape.Valid)
    (enough : shape.elements.length ≤ fuel) :
    (shape.elements = [] ∧ cfsDequeueMin fuel cfs = some (none, cfs)) ∨
    ∃ (p : Addr) (rest : List Addr) (tree' : RbTree) (shape' : Shape Addr),
      shape.elements = p :: rest ∧
      cfsDequeueMin fuel cfs = some (some p, { cfs with tree := tree' }) ∧
      Represents tree' shape' ∧ shape'.Valid ∧ shape'.elements = rest := by
  have root := rep.root
  cases shape with
  | leaf =>
      refine Or.inl ⟨rfl, ?_⟩
      simp only [cfsDequeueMin, rbFirst, root, Shape.top, Option.bind_eq_bind, Option.bind_some]
  | node red left top right =>
      obtain ⟨red', p, u, spine, split, turns, found⟩ :=
        @leftmost_spec cfs.tree [] _ top fuel rep rfl enough
      rw [split] at rep valid enough
      obtain ⟨tree', shape', ran, rep', valid', same⟩ := rbErase_spec fuel rep valid enough
      have order : (Zipper.plug (.node red' .leaf p u) spine).elements =
          p :: (u.elements ++ spine.after) := by
        rw [Zipper.elements_plug, Zipper.before_of_left turns]
        simp [Shape.elements]
      rw [Zipper.before_of_left turns] at same
      refine Or.inr ⟨p, u.elements ++ spine.after, tree', shape', ?_, ?_, rep', valid', ?_⟩
      · rw [split, order]
      · simp only [cfsDequeueMin, rbFirst, root, Shape.top, found, Option.map_some,
          Option.bind_eq_bind, Option.bind_some, ran]
      · rw [same]
        rfl

/-! ## Every run -/

/-- The key of the queue, in a type with a linear order. -/
def CfsQueue.key (cfs : CfsQueue) (a : Addr) : Nat := (cfs.vruntime a).toNat

structure CfsInvariant (state : CfsState) (shape : Shape Addr) : Prop where
  represents : Represents state.cfs.tree shape
  valid : shape.Valid
  serves : Serves state.cfs.key state.pending shape.elements

namespace CfsInvariant

variable {state : CfsState} {shape : Shape Addr}

theorem length_elements (invariant : CfsInvariant state shape) :
    shape.elements.length = state.pending.length := invariant.serves.perm.length_eq

theorem nodup (invariant : CfsInvariant state shape) : state.pending.Nodup :=
  invariant.serves.perm.nodup_iff.mp invariant.represents.nodup

theorem enqueue (invariant : CfsInvariant state shape) {p : Addr}
    (absent : p ∉ state.pending) (vruntime : UInt64) :
    ∃ (cfs' : CfsQueue) (shape' : Shape Addr),
      cfsStep state (.enqueue p vruntime) =
        some { cfs := cfs', pending := state.pending ++ [p] } ∧
      CfsInvariant { cfs := cfs', pending := state.pending ++ [p] } shape' := by
  have serves : Serves (state.assign p vruntime).key state.pending
      shape.elements := by
    apply invariant.serves.congr
    intro a waiting
    have different : a ≠ p := fun same => absent (same ▸ waiting)
    simp [CfsQueue.key, CfsState.assign, update_of_ne different]
  have fresh : p ∉ shape.elements := by
    intro member
    exact absent (invariant.serves.perm.mem_iff.mp member)
  have enough : shape.elements.length < state.fuel := by
    rw [invariant.length_elements, CfsState.fuel]
    omega
  obtain ⟨tree', shape', low, high, ran, rep', valid', split, order, below, above⟩ :=
    @cfsEnqueue_spec (state.assign p vruntime) p state.fuel shape invariant.represents
      invariant.valid serves.sorted_keys fresh enough
  refine ⟨{ state.assign p vruntime with tree := tree' }, shape', ?_, rep', valid', ?_⟩
  · simp only [cfsStep, absent, if_false, ran, Option.bind_eq_bind, Option.bind_some]
  · rw [split] at serves
    rw [order]
    exact serves.insert below above

theorem dequeueMin (invariant : CfsInvariant state shape) :
    (state.pending = [] ∧ cfsDequeueMin state.fuel state.cfs = some (none, state.cfs)) ∨
    ∃ (p : Addr) (tree' : RbTree) (shape' : Shape Addr),
      cfsDequeueMin state.fuel state.cfs = some (some p, { state.cfs with tree := tree' }) ∧
      IsNext state.cfs.key state.pending p ∧
      CfsInvariant { cfs := { state.cfs with tree := tree' }, pending := state.pending.erase p }
        shape' := by
  have enough : shape.elements.length ≤ state.fuel := by
    rw [invariant.length_elements, CfsState.fuel]
    omega
  have serves := invariant.serves
  rcases cfsDequeueMin_spec state.fuel invariant.represents invariant.valid enough with
    ⟨empty, ran⟩ | ⟨p, rest, tree', shape', split, ran, rep', valid', order⟩
  · exact Or.inl ⟨serves.nil_iff.mp empty, ran⟩
  · rw [split] at serves
    have rest_serves := serves.tail invariant.nodup
    rw [← order] at rest_serves
    exact Or.inr ⟨p, tree', shape', ran, serves.head, rep', valid', rest_serves⟩

theorem step (invariant : CfsInvariant state shape) {action : CfsAction} {next : CfsState}
    (taken : cfsStep state action = some next) : ∃ shape', CfsInvariant next shape' := by
  cases action with
  | enqueue p vruntime =>
      by_cases waiting : p ∈ state.pending
      · simp [cfsStep, waiting] at taken
      · obtain ⟨cfs', shape', ran, invariant'⟩ := invariant.enqueue waiting vruntime
        rw [ran, Option.some.injEq] at taken
        exact ⟨shape', taken ▸ invariant'⟩
  | dequeueMin =>
      rcases invariant.dequeueMin with ⟨_, ran⟩ | ⟨p, tree', shape', ran, _, invariant'⟩
      · simp only [cfsStep, ran, Option.bind_eq_bind, Option.bind_some, Option.some.injEq] at taken
        exact ⟨shape, taken ▸ invariant⟩
      · simp only [cfsStep, ran, Option.bind_eq_bind, Option.bind_some, Option.some.injEq] at taken
        exact ⟨shape', taken ▸ invariant'⟩

end CfsInvariant

theorem cfsInvariant_initial {state : CfsState} (initial : cfsSystem.initial state) :
    CfsInvariant state Shape.leaf where
  represents := represents_empty initial.1
  valid := ⟨rfl, 0, .leaf⟩
  serves := by
    rw [initial.2]
    exact Serves.empty _

/-! ## What a run took in and gave out -/

abbrev CfsTransition := Transition CfsState CfsAction

def CfsTransition.enqueued (transition : CfsTransition) : List Addr :=
  match transition.action with
  | .enqueue p _ => [p]
  | .dequeueMin => []

/-- What the call of `cfs_dequeue_min` in this step returned, unless it was NULL. -/
def CfsTransition.returned (transition : CfsTransition) : List Addr :=
  match transition.action with
  | .enqueue _ _ => []
  | .dequeueMin =>
      match cfsDequeueMin transition.before.fuel transition.before.cfs with
      | some (some p, _) => [p]
      | _ => []

theorem step_balance {state next : CfsState} {shape : Shape Addr} {action : CfsAction}
    (invariant : CfsInvariant state shape) (taken : cfsStep state action = some next) :
    (state.pending ++ CfsTransition.enqueued ⟨state, action, next⟩).Perm
      (CfsTransition.returned ⟨state, action, next⟩ ++ next.pending) := by
  cases action with
  | enqueue p vruntime =>
      by_cases waiting : p ∈ state.pending
      · simp [cfsStep, waiting] at taken
      · obtain ⟨cfs', _, ran, _⟩ := invariant.enqueue waiting vruntime
        rw [ran, Option.some.injEq] at taken
        rw [← taken]
        exact List.Perm.refl _
  | dequeueMin =>
      rcases invariant.dequeueMin with ⟨_, ran⟩ | ⟨p, tree', _, ran, first, _⟩
      · simp only [cfsStep, ran, Option.bind_eq_bind, Option.bind_some, Option.some.injEq] at taken
        simp only [CfsTransition.enqueued, CfsTransition.returned, ran, ← taken,
          List.append_nil, List.nil_append]
        exact List.Perm.refl _
      · simp only [cfsStep, ran, Option.bind_eq_bind, Option.bind_some, Option.some.injEq] at taken
        simp only [CfsTransition.enqueued, CfsTransition.returned, ran, ← taken,
          List.append_nil, List.singleton_append]
        exact List.perm_cons_erase first.waiting

theorem run_balance {first last : CfsState} {trace : List CfsTransition}
    (run : cfsSystem.Trace first trace last) {shape : Shape Addr}
    (invariant : CfsInvariant first shape) :
    (first.pending ++ trace.flatMap CfsTransition.enqueued).Perm
      (trace.flatMap CfsTransition.returned ++ last.pending) := by
  induction run generalizing shape with
  | nil state => simp
  | @cons first middle last action rest taken _ ih =>
      obtain ⟨shape', invariant'⟩ := invariant.step taken
      have here := step_balance invariant taken
      have later := ih invariant'
      simp only [List.flatMap_cons]
      rw [← List.append_assoc, List.append_assoc (CfsTransition.returned _)]
      apply (here.append_right _).trans
      rw [List.append_assoc]
      exact later.append_left _

theorem reachable_cfsInvariant {state : CfsState} (reachable : cfsSystem.Reachable state) :
    ∃ shape, CfsInvariant state shape := by
  have base : ∀ first, cfsSystem.initial first → ∃ shape, CfsInvariant first shape :=
    fun first initial => ⟨_, cfsInvariant_initial initial⟩
  refine System.Reachable.invariant base ?_ reachable
  intro state action next holds taken
  obtain ⟨shape, invariant⟩ := holds
  exact invariant.step taken

/-- The promise of a stable priority queue, at the end of a run. -/
structure StablePriorityQueue (trace : List CfsTransition) (last : CfsState) : Prop where
  accepts : ∀ p vruntime, p ∉ last.pending → ∃ cfs', cfsStep last (.enqueue p vruntime) =
    some { cfs := cfs', pending := last.pending ++ [p] }
  returns : ∃ returned cfs', cfsDequeueMin last.fuel last.cfs = some (returned, cfs') ∧
    (returned = none ↔ last.pending = []) ∧
    ∀ p, returned = some p → IsNext last.cfs.key last.pending p
  conserves : (trace.flatMap CfsTransition.enqueued).Perm
    (trace.flatMap CfsTransition.returned ++ last.pending)

/-- `cfs_rq` keeps the promise after every interleaving from the empty tree. -/
theorem cfs_stable_priority_queue {first last : CfsState} {trace : List CfsTransition}
    (initial : cfsSystem.initial first) (run : cfsSystem.Trace first trace last) :
    StablePriorityQueue trace last := by
  obtain ⟨shape, invariant⟩ := reachable_cfsInvariant ⟨first, trace, initial, run⟩
  refine ⟨?_, ?_, ?_⟩
  · intro p vruntime absent
    obtain ⟨cfs', _, ran, _⟩ := invariant.enqueue absent vruntime
    exact ⟨cfs', ran⟩
  · rcases invariant.dequeueMin with ⟨empty, ran⟩ | ⟨p, tree', _, ran, next, _⟩
    · exact ⟨none, last.cfs, ran, by simp [empty], by simp⟩
    · refine ⟨some p, _, ran, ?_, ?_⟩
      · simp only [reduceCtorEq, false_iff]
        exact List.ne_nil_of_mem next.waiting
      · intro q same
        rw [← Option.some.inj same]
        exact next
  · have balance := run_balance run (cfsInvariant_initial initial)
    rwa [initial.2, List.nil_append] at balance

def emptyCfs : CfsState :=
  ⟨⟨⟨fun _ => ⟨none, none, none, false⟩, none⟩, fun _ => 0⟩, []⟩

/-- Equal keys, a smaller and a larger one, and processes taken out in between. -/
def cfsActions : List CfsAction :=
  [.enqueue 10 7, .enqueue 20 7, .enqueue 30 3, .dequeueMin, .enqueue 40 7, .enqueue 50 2,
    .enqueue 60 9, .dequeueMin, .dequeueMin]

theorem cfsActions_recorded : ∃ trace last,
    cfsSystem.record emptyCfs cfsActions = some (trace, last) ∧ last.pending = [20, 40, 60] := by
  have runs : (cfsSystem.record emptyCfs cfsActions).any fun run =>
      decide (run.2.pending = [20, 40, 60]) := by
    decide +kernel
  obtain ⟨⟨trace, last⟩, recorded, pending⟩ := (Option.any_eq_true ..).mp runs
  exact ⟨trace, last, recorded, of_decide_eq_true pending⟩

theorem cfs_stable_priority_queue_after_ties : ∃ trace last,
    cfsSystem.record emptyCfs cfsActions = some (trace, last) ∧ last.pending = [20, 40, 60] ∧
      StablePriorityQueue trace last := by
  obtain ⟨trace, last, recorded, pending⟩ := cfsActions_recorded
  exact ⟨trace, last, recorded, pending,
    cfs_stable_priority_queue ⟨rfl, rfl⟩ (System.trace_of_record recorded)⟩

end ApnaOS.Process
