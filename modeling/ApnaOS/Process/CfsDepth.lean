import ApnaOS.Lib.RedBlackDepth
import ApnaOS.Process.CfsQueue

/-!
# The depth of the CFS tree

The tree of `n` processes is at most `2 * log2 (n + 1)` deep, and so long are the loops that
walk down it.
-/

set_option autoImplicit false

namespace ApnaOS.Process

open ApnaOS.Lib

inductive RbTree.Descends (tree : RbTree) : Option Addr → List Addr → Prop where
  | null : Descends tree none []
  | step {a : Addr} {rest : List Addr} (d : Dir) (below : Descends tree (tree.child d a) rest) :
      Descends tree (some a) (a :: rest)

/-- The iterations that the loop of `cfs_enqueue` makes, of at most `fuel`. -/
def findLinkIterations (cfs : CfsQueue) (p : Addr) : (fuel : Nat) → Link → Nat
  | 0, _ => 0
  | fuel + 1, link =>
      match cfs.tree.load link with
      | none => 0
      | some q =>
          if cfs.vruntime p < cfs.vruntime q then findLinkIterations cfs p fuel (.child .left q) + 1
          else findLinkIterations cfs p fuel (.child .right q) + 1

/-- The same for the loop of `rb_first`. -/
def leftmostIterations : Nat → RbTree → Addr → Nat
  | 0, _, _ => 0
  | fuel + 1, tree, n =>
      match tree.child .left n with
      | some left => leftmostIterations fuel tree left + 1
      | none => 0

def rbFirstIterations (fuel : Nat) (tree : RbTree) : Nat :=
  match tree.root with
  | none => 0
  | some n => leftmostIterations fuel tree n

/-! ## The counts are those of the loops -/

theorem findLink_isSome_iff (cfs : CfsQueue) (p : Addr) (fuel : Nat) (link : Link)
    (parent : Option Addr) :
    (findLink cfs p fuel link parent).isSome ↔ findLinkIterations cfs p fuel link < fuel := by
  induction fuel generalizing link parent with
  | zero => simp [findLink]
  | succ fuel ih =>
      rw [findLink, findLinkIterations]
      cases cfs.tree.load link with
      | none => simp
      | some q =>
          dsimp only
          by_cases smaller : cfs.vruntime p < cfs.vruntime q
          · rw [if_pos smaller, if_pos smaller, ih]
            omega
          · rw [if_neg smaller, if_neg smaller, ih]
            omega

theorem leftmost_isSome_iff (fuel : Nat) (tree : RbTree) (n : Addr) :
    (leftmost fuel tree n).isSome ↔ leftmostIterations fuel tree n < fuel := by
  induction fuel generalizing n with
  | zero => simp [leftmost]
  | succ fuel ih =>
      rw [leftmost, leftmostIterations]
      cases tree.child .left n with
      | none => simp
      | some left =>
          dsimp only
          rw [ih]
          omega

/-! ## Walks down the tree -/

theorem exists_path (t : Shape Addr) : ∃ nodes, t.Path nodes := by
  induction t with
  | leaf => exact ⟨[], .leaf⟩
  | node red left x right ihl _ =>
      obtain ⟨nodes, path⟩ := ihl
      exact ⟨x :: nodes, .left path⟩

theorem RbTree.Descends.path {tree : RbTree} {t : Shape Addr} {path : Zipper Addr}
    {nodes : List Addr} (rep : Represents tree (path.plug t)) (walk : tree.Descends t.top nodes) :
    t.Path nodes := by
  induction t generalizing path nodes with
  | leaf =>
      cases walk
      exact .leaf
  | node red left x right ihl ihr =>
      cases walk with
      | step d below =>
          cases d with
          | left =>
              rw [RbTree.child, node_plug (d := .left) rep, child_nodeOf] at below
              have lower : Represents tree (Zipper.plug left (⟨.left, red, x, right⟩ :: path)) := rep
              exact .left (ihl lower below)
          | right =>
              rw [RbTree.child, node_plug (d := .right) rep, child_nodeOf] at below
              have lower : Represents tree (Zipper.plug right (⟨.right, red, x, left⟩ :: path)) := rep
              exact .right (ihr lower below)

theorem findLinkIterations_path {cfs : CfsQueue} {p : Addr} (fuel : Nat) {path : Zipper Addr}
    {t : Shape Addr} (rep : Represents cfs.tree (path.plug t)) :
    ∃ nodes, t.Path nodes ∧ findLinkIterations cfs p fuel (linkOf path) ≤ nodes.length := by
  induction t generalizing fuel path with
  | leaf =>
      refine ⟨[], .leaf, ?_⟩
      cases fuel with
      | zero => exact Nat.le_refl 0
      | succ fuel =>
          simp only [findLinkIterations, load_plug rep, Shape.top]
          exact Nat.le_refl 0
  | node red left q right ihl ihr =>
      cases fuel with
      | zero =>
          obtain ⟨nodes, way⟩ := exists_path (.node red left q right)
          exact ⟨nodes, way, Nat.zero_le _⟩
      | succ fuel =>
          have load : cfs.tree.load (linkOf path) = some q := load_plug rep
          rw [findLinkIterations, load]
          dsimp only
          by_cases smaller : cfs.vruntime p < cfs.vruntime q
          · have lower : Represents cfs.tree (Zipper.plug left (⟨.left, red, q, right⟩ :: path)) := rep
            obtain ⟨nodes, way, few⟩ := ihl fuel lower
            rw [if_pos smaller]
            exact ⟨q :: nodes, .left way, Nat.succ_le_succ few⟩
          · have lower : Represents cfs.tree (Zipper.plug right (⟨.right, red, q, left⟩ :: path)) := rep
            obtain ⟨nodes, way, few⟩ := ihr fuel lower
            rw [if_neg smaller]
            exact ⟨q :: nodes, .right way, Nat.succ_le_succ few⟩

theorem leftmostIterations_path {tree : RbTree} (fuel : Nat) {path : Zipper Addr} {t : Shape Addr}
    (rep : Represents tree (path.plug t)) {x : Addr} (here : t.top = some x) :
    ∃ nodes, t.Path nodes ∧ leftmostIterations fuel tree x ≤ nodes.length := by
  induction t generalizing fuel path x with
  | leaf => cases here
  | node red left a right ihl _ =>
      cases here
      have child : tree.child .left a = left.top := by
        rw [RbTree.child, node_plug (d := .left) rep, child_nodeOf]
      have lower : Represents tree (Zipper.plug left (⟨.left, red, a, right⟩ :: path)) := rep
      cases fuel with
      | zero =>
          obtain ⟨nodes, way⟩ := exists_path (.node red left a right)
          exact ⟨nodes, way, Nat.zero_le _⟩
      | succ fuel =>
          rw [leftmostIterations, child]
          cases top : left.top with
          | none =>
              obtain ⟨nodes, way⟩ := exists_path (.node red left a right)
              exact ⟨nodes, way, Nat.zero_le _⟩
          | some y =>
              obtain ⟨nodes, way, few⟩ := ihl fuel lower top
              exact ⟨a :: nodes, .left way, Nat.succ_le_succ few⟩

/-! ## Every reachable queue -/

/-- Twice the logarithm, rounded down, of the number of processes and one. -/
def CfsState.depthBound (state : CfsState) : Nat := 2 * (state.pending.length + 1).log2

/-- The tree holds the pending processes, no path is longer than the bound, and the loops
end within as many iterations. -/
structure Shallow (state : CfsState) : Prop where
  held : ∃ shape, Represents state.cfs.tree shape ∧ shape.elements.Perm state.pending
  paths : ∀ nodes, state.cfs.tree.Descends state.cfs.tree.root nodes →
    nodes.length ≤ state.depthBound
  enqueue_iterations : ∀ p vruntime fuel,
    findLinkIterations (state.assign p vruntime) p fuel .root ≤ state.depthBound
  first_iterations : ∀ fuel, rbFirstIterations fuel state.cfs.tree ≤ state.depthBound
  enqueue_ends : ∀ p vruntime fuel, state.depthBound < fuel →
    (findLink (state.assign p vruntime) p fuel .root none).isSome
  first_ends : ∀ fuel, state.depthBound < fuel → (rbFirst fuel state.cfs.tree).isSome

theorem CfsInvariant.shallow {state : CfsState} {shape : Shape Addr}
    (invariant : CfsInvariant state shape) : Shallow state := by
  have bound : ∀ nodes, shape.Path nodes → nodes.length ≤ state.depthBound := by
    intro nodes path
    have short := invariant.valid.path_length path
    rw [invariant.length_elements] at short
    exact short
  have enqueue : ∀ p vruntime fuel,
      findLinkIterations (state.assign p vruntime) p fuel .root ≤ state.depthBound := by
    intro p vruntime fuel
    have rep : Represents (state.assign p vruntime).tree (Zipper.plug shape []) :=
      invariant.represents
    obtain ⟨nodes, path, few⟩ := findLinkIterations_path (p := p) fuel rep
    exact Nat.le_trans few (bound nodes path)
  have first : ∀ fuel, rbFirstIterations fuel state.cfs.tree ≤ state.depthBound := by
    intro fuel
    rw [rbFirstIterations, invariant.represents.root]
    cases top : shape.top with
    | none => exact Nat.zero_le _
    | some x =>
        have rep : Represents state.cfs.tree (Zipper.plug shape []) := invariant.represents
        obtain ⟨nodes, path, few⟩ := leftmostIterations_path fuel rep top
        exact Nat.le_trans few (bound nodes path)
  constructor
  · exact ⟨shape, invariant.represents, invariant.serves.perm⟩
  · intro nodes walk
    rw [invariant.represents.root] at walk
    have rep : Represents state.cfs.tree (Zipper.plug shape []) := invariant.represents
    exact bound nodes (walk.path rep)
  · exact enqueue
  · exact first
  · intro p vruntime fuel enough
    exact (findLink_isSome_iff ..).mpr (Nat.lt_of_le_of_lt (enqueue p vruntime fuel) enough)
  · intro fuel enough
    have few := first fuel
    rw [rbFirstIterations] at few
    rw [rbFirst]
    cases root : state.cfs.tree.root with
    | none => rfl
    | some n =>
        rw [root] at few
        rw [Option.isSome_map]
        exact (leftmost_isSome_iff ..).mpr (Nat.lt_of_le_of_lt few enough)

/-- The tree is shallow after every sequence of `cfs_enqueue` and `cfs_dequeue_min`. -/
theorem cfs_depth_logarithmic (state : CfsState) (reachable : cfsSystem.Reachable state) :
    Shallow state := by
  obtain ⟨shape, invariant⟩ := reachable_cfsInvariant reachable
  exact invariant.shallow

theorem cfs_depth_logarithmic_after_ties : ∃ trace last,
    cfsSystem.record emptyCfs cfsActions = some (trace, last) ∧ last.pending = [20, 40, 60] ∧
      Shallow last := by
  obtain ⟨trace, last, recorded, pending⟩ := cfsActions_recorded
  exact ⟨trace, last, recorded, pending,
    cfs_depth_logarithmic last ⟨_, trace, ⟨rfl, rfl⟩, System.trace_of_record recorded⟩⟩

end ApnaOS.Process
