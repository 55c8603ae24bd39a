import Mathlib.Data.List.Induction
import ApnaOS.Process.RbShape

/-!
# Removal keeps the order and the balance

The loop of `rb_erase` carries a subtree up the path that is one black node short
of what the path asks for.
-/

set_option autoImplicit false

namespace ApnaOS.Process

open ApnaOS.Lib

variable {tree : RbTree} {path rest : Zipper Addr} {l r t u b c : Shape Addr} {x px sx : Addr}

/-! ## Unlinking -/

theorem removeSingle_spec {d : Dir} {red : Bool}
    (rep : Represents tree (path.plug (.mk d red .leaf x t))) :
    ∃ tree', removeSingle tree x t.top = ⟨t.top, path.top, red, tree'⟩ ∧
      Represents tree' (path.plug t) := by
  have node := node_plug rep
  have whole := (represents_plug _ _).mp rep
  rw [unfold_sub, Shape.top_mk] at whole
  have step₁ := adopt_sub (whole.pick 2 rfl) path.top
  have foreign := cell_foreign ((step₁.pick 3 rfl).pick 2 rfl)
  have step₂ := relink_hole (step₁.pick 3 rfl) foreign .left t.top
  have kept := (((step₂.pick 3 rfl).tail.pick 2 rfl).tail.pick 1 rfl)
  refine ⟨_, ?_, (represents_plug _ _).mpr kept⟩
  simp only [removeSingle, RbTree.parent, RbTree.red, node, rbParent_nodeOf, rbRed_nodeOf]

/-- A nonempty tree is its leftmost node below a path of left turns, and the search
ends there. -/
theorem leftmost_spec (fuel : Nat) (rep : Represents tree (path.plug t)) (here : t.top = some x)
    (enough : t.elements.length ≤ fuel) :
    ∃ red y u spine, t = Zipper.plug (.node red .leaf y u) spine ∧
      (∀ frame ∈ spine, frame.dir = .left) ∧ leftmost fuel tree x = some y := by
  induction t generalizing fuel x path with
  | leaf => cases here
  | node red left a right ihl _ =>
      cases here
      have child : tree.child .left a = left.top := by
        rw [RbTree.child, node_plug (d := .left) rep, child_nodeOf]
      obtain ⟨m, rfl⟩ : ∃ m, fuel = m + 1 := by
        refine ⟨fuel - 1, ?_⟩
        simp only [Shape.elements, List.length_append, List.length_cons] at enough
        omega
      cases left with
      | leaf =>
          refine ⟨red, a, right, [], rfl, fun _ member => absurd member List.not_mem_nil, ?_⟩
          simp only [leftmost, child, Shape.top]
      | node red' left' z right' =>
          have below : Represents tree
              (Zipper.plug (.node red' left' z right') (⟨.left, red, a, right⟩ :: path)) := rep
          obtain ⟨red'', y, u, spine, shape, turns, found⟩ := ihl m below rfl (by
            simp only [Shape.elements, List.length_append, List.length_cons] at enough ⊢
            omega)
          refine ⟨red'', y, u, spine ++ [⟨.left, red, a, right⟩], ?_, ?_, ?_⟩
          · rw [Zipper.plug_append, ← shape]
            rfl
          · intro frame member
            rcases List.mem_append.mp member with inner | outer
            · exact turns frame inner
            · rw [List.mem_singleton.mp outer]
          · simp only [leftmost, child, Shape.top]
            exact found

theorem top_plug_cons (t u : Shape Addr) (frame : Frame Addr) (above : Zipper Addr) :
    (Zipper.plug t (frame :: above)).top = (Zipper.plug u (frame :: above)).top := by
  induction above generalizing t u frame with
  | nil => rw [Zipper.plug, Zipper.plug, Zipper.plug, Zipper.plug, Frame.attach, Frame.attach,
      Shape.top_mk, Shape.top_mk]
  | cons next above ih => exact ih (frame.attach t) (frame.attach u) next

theorem detach_sub {red : Bool} {frame : Frame Addr} {spine : Zipper Addr} {p : Option Addr}
    {pieces : List RbPiece} (turn : frame.dir = .left) (turns : ∀ f ∈ spine, f.dir = .left)
    (separate : Separate tree
      (sub (Zipper.plug (.node red .leaf x u) (frame :: spine)) p :: pieces)) :
    tree.node x = ⟨none, u.top, some frame.x, red⟩ ∧
      Separate ((tree.adopt (some frame.x) u.top).setChild .left frame.x u.top)
        (sub (Zipper.plug u (frame :: spine)) p ::
          cell x ⟨none, u.top, some frame.x, red⟩ :: pieces) := by
  induction spine using List.reverseRecOn generalizing p pieces with
  | nil =>
      obtain ⟨d, red', px, s⟩ := frame
      cases turn
      have opened := (unfold_sub .left red' _ px s p).mp separate
      have lower := (unfold_sub .left red .leaf x u (some px)).mp (opened.pick 1 rfl)
      refine ⟨node_cell lower, ?_⟩
      have step₁ := adopt_sub (lower.pick 2 rfl) (some px)
      have step₂ := setChild_cell (step₁.pick 3 rfl) .left u.top
      rw [setChild_nodeOf] at step₂
      have kept := (step₂.pick 3 rfl).tail
      exact (unfold_sub .left red' u px s p).mpr (((kept.pick 3 rfl).pick 2 rfl).pick 2 rfl)
  | append_singleton spine next ih =>
      obtain ⟨d, red', y, s⟩ := next
      cases turns _ (List.mem_append_right spine (List.mem_singleton_self _))
      have inner : ∀ shape, Zipper.plug shape (frame :: (spine ++ [⟨.left, red', y, s⟩])) =
          .mk .left red' (Zipper.plug shape (frame :: spine)) y s :=
        fun shape => Zipper.plug_append shape (frame :: spine) _
      rw [inner] at separate ⊢
      have opened := (unfold_sub .left red' _ y s p).mp separate
      obtain ⟨node, detached⟩ := ih (fun f member => turns f (List.mem_append_left _ member))
        (opened.pick 1 rfl)
      refine ⟨node, (unfold_sub .left red' _ y s p).mpr ?_⟩
      rw [top_plug_cons u (.node red .leaf x u)]
      exact ((detached.pick 3 rfl).pick 1 rfl).pick 3 rfl

theorem takePlace_spec {y lx : Addr} {red red' : Bool} {p rt : Option Addr}
    (separate : Separate tree [cell y (nodeOf .left none r.top p red'),
      cell x (nodeOf .left l.top rt path.top red), sub l (some x), sub r (some y),
      hole path (some y)]) (left : l.top = some lx) :
    ∃ tree', takePlace tree x y = some tree' ∧
      Represents tree' (path.plug (.node red l y r)) := by
  have atOld := node_cell (separate.pick 1 rfl)
  have step₁ := setParent_cell separate path.top
  have atOld₁ := node_cell (step₁.pick 1 rfl)
  have step₂ := setRed_cell step₁ red
  have atOld₂ := node_cell (step₂.pick 1 rfl)
  have step₃ := setChild_cell step₂ .left l.top
  have atOld₃ := node_cell (step₃.pick 1 rfl)
  have step₄ := adopt_sub (step₃.pick 2 rfl) (some y)
  simp only [setParent_nodeOf, setRed_nodeOf, setChild_nodeOf] at step₄
  rw [left] at step₄ atOld atOld₁ atOld₂ atOld₃
  obtain ⟨tree', ran, written⟩ : ∃ tree', takePlace tree x y = some tree' ∧
      Separate tree' [sub l (some y), cell y (nodeOf .left l.top r.top path.top red),
        cell x (nodeOf .left l.top rt path.top red), sub r (some y), hole path (some y)] := by
    rw [left]
    refine ⟨_, ?_, step₄⟩
    simp only [takePlace, RbTree.parent, RbTree.red, RbTree.child, atOld, atOld₁, atOld₂, atOld₃,
      rbParent_nodeOf, rbRed_nodeOf, child_nodeOf, Option.bind_eq_bind, Option.bind_some,
      RbTree.adopt]
  have kept := (written.pick 2 rfl).tail
  have folded := (unfold_sub .left red l y r path.top).mpr
    (((kept.pick 2 rfl).pick 1 rfl).pick 2 rfl)
  exact ⟨tree', ran, (represents_plug _ _).mpr folded⟩

theorem detachSuccessor_spec {y rx : Addr} {red red' : Bool} {frame : Frame Addr}
    {spine : Zipper Addr} (turn : frame.dir = .left) (turns : ∀ f ∈ spine, f.dir = .left)
    (separate : Separate tree [sub (Zipper.plug (.node red' .leaf y u) (frame :: spine)) (some x),
      hole path (some y), cell x (nodeOf .left l.top (some rx) path.top red), sub l (some x)])
    (right : (Zipper.plug u (frame :: spine)).top = some rx) :
    tree.node y = ⟨none, u.top, some frame.x, red'⟩ ∧
    ∃ tree', detachSuccessor tree x y frame.x u.top = some tree' ∧
      Separate tree' [cell y (nodeOf .left none (Zipper.plug u (frame :: spine)).top
          (some frame.x) red'), cell x (nodeOf .left l.top (some rx) path.top red),
        sub l (some x), sub (Zipper.plug u (frame :: spine)) (some y), hole path (some y)] := by
  obtain ⟨atNode, detached⟩ := detach_sub turn turns separate
  have atOld := node_cell (detached.pick 3 rfl)
  have step₁ := setChild_cell (detached.pick 1 rfl) .right (some rx)
  have atOld₁ := node_cell (step₁.pick 3 rfl)
  have step₂ := adopt_sub (step₁.pick 1 rfl) (some y)
  rw [right] at step₂ ⊢
  refine ⟨atNode, _, ?_, ((((step₂.pick 2 rfl).pick 1 rfl).pick 4 rfl).pick 4 rfl).pick 4 rfl⟩
  simp only [detachSuccessor, RbTree.child, atOld, atOld₁, nodeOf, RbNode.child,
    Option.bind_eq_bind, Option.bind_some]
  rfl

theorem removeDouble_spec (fuel : Nat) {y lx rx : Addr} {red red' : Bool} {spine : Zipper Addr}
    (turns : ∀ frame ∈ spine, frame.dir = .left)
    (rep : Represents tree
      (path.plug (.node red l x (Zipper.plug (.node red' .leaf y u) spine))))
    (left : l.top = some lx) (right : (Zipper.plug (.node red' .leaf y u) spine).top = some rx)
    (found : leftmost fuel tree rx = some y) :
    ∃ tree', removeDouble fuel tree x rx =
        some ⟨u.top, Zipper.top (spine ++ ⟨.right, red, y, l⟩ :: path), red', tree'⟩ ∧
      Represents tree' (Zipper.plug u (spine ++ ⟨.right, red, y, l⟩ :: path)) := by
  have whole := (unfold_sub .left red l x _ path.top).mp ((represents_plug _ _).mp rep)
  have parent : (tree.node x).rbParent = path.top := by rw [node_cell whole, rbParent_nodeOf]
  have foreign := cell_foreign ((whole.pick 3 rfl).pick 1 rfl)
  have step₁ := relink_hole (whole.pick 3 rfl) foreign .left (some y)
  have onward : ∀ shape, Zipper.plug shape (spine ++ ⟨.right, red, y, l⟩ :: path) =
      path.plug (.node red l y (Zipper.plug shape spine)) :=
    fun shape => Zipper.plug_append shape spine _
  rw [onward]
  cases spine with
  | nil =>
      cases right
      have lower := (unfold_sub .left red' .leaf y u (some x)).mp (step₁.pick 3 rfl)
      have atNode := node_cell lower
      have kept := (lower.pick 1 rfl).tail
      obtain ⟨tree', ran, represents⟩ := takePlace_spec
        (((((kept.pick 2 rfl).pick 2 rfl).pick 4 rfl).pick 4 rfl).pick 4 rfl) left
      refine ⟨tree', ?_, represents⟩
      simp only [removeDouble, found, RbTree.parent, parent, RbTree.child, RbTree.red, atNode,
        nodeOf, RbNode.child, Option.bind_eq_bind, Option.bind_some, if_true, ran,
        List.nil_append, Zipper.top_cons]
  | cons frame spine =>
      have turn := turns frame List.mem_cons_self
      have top : (Zipper.plug u (frame :: spine)).top = some rx := by
        rw [top_plug_cons u (.node red' .leaf y u), right]
      have lower := step₁.pick 3 rfl
      rw [right] at lower
      obtain ⟨atNode, tree₁, detached, ready⟩ := detachSuccessor_spec turn
        (fun f member => turns f (List.mem_cons_of_mem frame member)) lower top
      have apart : frame.x ≠ x := by
        intro same
        apply (lower.pick 2 rfl).not_owned (List.mem_singleton_self (some x))
        refine List.mem_append_left _ (List.mem_map_of_mem ?_)
        rw [(Zipper.elements_plug_perm _ _).mem_iff, ← same]
        simp [Zipper.elements]
      obtain ⟨tree', ran, represents⟩ := takePlace_spec ready left
      refine ⟨tree', ?_, represents⟩
      simp only [removeDouble, found, RbTree.parent, parent, RbTree.child, RbTree.red, atNode,
        RbNode.child, Option.bind_eq_bind, Option.bind_some, if_neg apart, detached, ran,
        List.cons_append, Zipper.top_cons]

/-! ## One iteration of the fixup -/

theorem eraseSibling_black {d : Dir} {red : Bool}
    (rep : Represents tree (rest.plug (.mk d red t px (.mk d false b sx c)))) :
    eraseSibling d tree px = some (sx, tree) := by
  have sibling : tree.child d.other px = some sx := by
    rw [RbTree.child, node_plug rep, child_other_nodeOf, Shape.top_mk]
  rw [plug_far] at rep
  have black : tree.red sx = false := by rw [RbTree.red, node_plug rep, rbRed_nodeOf]
  simp only [eraseSibling, sibling, black, Option.bind_eq_bind, Option.bind_some,
    Bool.false_eq_true, if_false]

/-- A red sibling is rotated above the parent and its near child takes its place. -/
theorem eraseSibling_red {d : Dir} {bx : Addr}
    (rep : Represents tree (rest.plug (.mk d false t px (.mk d true b sx c))))
    (here : b.top = some bx) :
    ∃ tree', eraseSibling d tree px = some (bx, tree') ∧
      Represents tree' (rest.plug (.mk d false (.mk d true t px b) sx c)) := by
  have sibling : tree.child d.other px = some sx := by
    rw [RbTree.child, node_plug rep, child_other_nodeOf, Shape.top_mk]
  have red : tree.red sx = true := by
    have far := rep
    rw [plug_far] at far
    rw [RbTree.red, node_plug far, rbRed_nodeOf]
  have step₁ := setRed_far rep (Shape.top_mk ..) false
  have step₂ := setRed_plug step₁ (Shape.top_mk ..) true
  rw [Shape.recolour_mk, Shape.recolour_mk] at step₂
  obtain ⟨tree', ran, rotated⟩ := rotate_spec d step₂
  have lower : Represents tree' (Zipper.plug (.mk d true t px b) (⟨d, false, sx, c⟩ :: rest)) :=
    rotated
  have next : tree'.child d.other px = some bx := by
    rw [RbTree.child, node_plug lower, child_other_nodeOf, here]
  refine ⟨tree', ?_, rotated⟩
  simp only [eraseSibling, sibling, red, Option.bind_eq_bind, Option.bind_some, if_true, ran, next]

theorem nephews {d : Dir} {red red' : Bool}
    (rep : Represents tree (rest.plug (.mk d red t px (.mk d red' b sx c)))) :
    tree.isRed (tree.child d sx) = b.isRed ∧ tree.isRed (tree.child d.other sx) = c.isRed := by
  rw [plug_far] at rep
  have node := node_plug rep
  rw [RbTree.child, RbTree.child, node, child_nodeOf, child_other_nodeOf]
  refine ⟨@isRed_plug tree b (⟨d, red', sx, c⟩ :: ⟨d.other, red, px, t⟩ :: rest) rep, ?_⟩
  rw [plug_far] at rep
  exact isRed_plug rep

theorem both_black {d : Dir} {red red' : Bool}
    (rep : Represents tree (rest.plug (.mk d red t px (.mk d red' b sx c)))) :
    (!tree.isRed (tree.child .left sx) && !tree.isRed (tree.child .right sx)) =
      (!b.isRed && !c.isRed) := by
  obtain ⟨near, far⟩ := nephews rep
  rw [← near, ← far]
  cases d with
  | left => rfl
  | right => exact Bool.and_comm _ _

theorem eraseRefill_up {d : Dir} {red : Bool}
    (rep : Represents tree (rest.plug (.mk d red t px (.mk d false b sx c))))
    (b_black : b.isRed = false) (c_black : c.isRed = false) :
    ∃ tree', eraseRefill d tree px sx = some (some px, rest.top, tree') ∧
      Represents tree' (rest.plug (.mk d red t px (.mk d true b sx c))) := by
  have both := both_black rep
  have step := setRed_far rep (Shape.top_mk ..) true
  rw [Shape.recolour_mk] at step
  refine ⟨_, ?_, step⟩
  simp only [eraseRefill, both, b_black, c_black, Bool.not_false, Bool.and_self, if_true,
    parent_plug step (Shape.top_mk ..)]

theorem eraseTurn_far {d : Dir} {red : Bool}
    (rep : Represents tree (rest.plug (.mk d red t px (.mk d false b sx c))))
    (c_red : c.isRed = true) : eraseTurn d tree px sx = some (sx, tree) := by
  simp only [eraseTurn, (nephews rep).2, c_red, Bool.not_true, Bool.false_eq_true, if_false]

/-- Only the near child of the black sibling is red: it is rotated into its place. -/
theorem eraseTurn_near {d : Dir} {red : Bool} {b₁ b₂ : Shape Addr} {bx : Addr}
    (rep : Represents tree (rest.plug (.mk d red t px (.mk d false (.mk d true b₁ bx b₂) sx c))))
    (c_black : c.isRed = false) :
    ∃ tree', eraseTurn d tree px sx = some (bx, tree') ∧
      Represents tree'
        (rest.plug (.mk d red t px (.mk d false b₁ bx (.mk d true b₂ sx c)))) := by
  have far := rep
  rw [plug_far] at far
  have near : tree.child d sx = some bx := by
    rw [RbTree.child, node_plug far, child_nodeOf, Shape.top_mk]
  have step₁ := setRed_near far (Shape.top_mk ..) false
  have step₂ := setRed_plug step₁ (Shape.top_mk ..) true
  rw [Shape.recolour_mk, Shape.recolour_mk, ← Shape.mk_other d true, ← Shape.mk_other d false b₂]
    at step₂
  obtain ⟨tree', ran, rotated⟩ := rotate_spec d.other step₂
  rw [Shape.mk_other, Shape.mk_other, ← plug_far] at rotated
  have next : tree'.child d.other px = some bx := by
    rw [RbTree.child, node_plug rotated, child_other_nodeOf, Shape.top_mk]
  refine ⟨tree', ?_, rotated⟩
  simp only [eraseTurn, (nephews rep).2, c_black, Bool.not_false, if_true, near, RbTree.blacken,
    Option.bind_eq_bind, Option.bind_some, ran, next]

/-- The far child of the sibling is red: one rotation makes up for the missing
black node, and the loop is sent to the root. -/
theorem eraseRefill_done {d : Dir} {red : Bool} {tree₁ : RbTree} {sy : Addr}
    (some_red : (!tree.isRed (tree.child .left sx) && !tree.isRed (tree.child .right sx)) = false)
    (turned : eraseTurn d tree px sx = some (sy, tree₁))
    (rep : Represents tree₁ (rest.plug (.mk d red t px (.mk d false b sy c)))) :
    ∃ tree', eraseRefill d tree px sx = some (tree'.root, some px, tree') ∧
      Represents tree'
        (rest.plug (.mk d red (.mk d false t px b) sy (c.recolour false))) := by
  have parent_red : tree₁.red px = red := by rw [RbTree.red, node_plug rep, rbRed_nodeOf]
  have step₁ := setRed_far rep (Shape.top_mk ..) red
  have step₂ := setRed_plug step₁ (Shape.top_mk ..) false
  rw [Shape.recolour_mk, Shape.recolour_mk] at step₂
  have outer := step₂
  rw [plug_far] at outer
  have far : ((tree₁.setRed sy red).setRed px false).child d.other sy = c.top := by
    rw [RbTree.child, node_plug outer, child_other_nodeOf]
  rw [plug_far] at outer
  have step₃ := blacken_plug outer
  rw [← plug_far, ← plug_far] at step₃
  obtain ⟨tree', ran, rotated⟩ := rotate_spec d step₃
  refine ⟨tree', ?_, rotated⟩
  simp only [eraseRefill, some_red, Bool.false_eq_true, if_false, turned, parent_red, far,
    Option.bind_eq_bind, Option.bind_some, ran]

/-! ## The loop -/

/-- The tree is one black node short of height `n + 1`, or red. -/
def Short (t : Shape Addr) (n : Nat) : Prop :=
  (t.isRed = false ∧ t.Balanced n) ∨ (t.isRed = true ∧ (t.recolour false).Balanced (n + 1))

/-- The loop ends with `child` at a subtree that makes the whole tree valid when it
is black, and the elements are these. -/
def Ends (fuel : Nat) (tree : RbTree) (child parent : Option Addr) (elements : List Addr) :
    Prop :=
  ∃ (shape : Shape Addr) (path : Zipper Addr) (tree' : RbTree),
    eraseLoop fuel tree child parent = some (shape.top, tree') ∧
      Represents tree' (path.plug shape) ∧ (path.plug shape).elements = elements ∧
      (path.plug (shape.recolour false)).Valid

theorem ends_at_root {shape : Shape Addr} (fuel : Nat) (rep : Represents tree shape)
    (valid : shape.Valid) (parent : Option Addr) :
    Ends (fuel + 1) tree tree.root parent shape.elements := by
  refine ⟨shape, [], tree, ?_, rep, rfl, ?_⟩
  · simp only [eraseLoop, ne_eq, not_true, false_and, if_false, rep.root]
  · rw [Shape.blacken_of_black valid.1]
    exact valid

theorem ends_at_red {n : Nat} (fuel : Nat) (rep : Represents tree (path.plug t))
    (red : t.isRed = true) (balanced : (t.recolour false).Balanced (n + 1))
    (fits : path.Fits (n + 1)) (parent : Option Addr) :
    Ends (fuel + 1) tree t.top parent (path.plug t).elements := by
  refine ⟨t, path, tree, ?_, rep, rfl, ?_⟩
  · simp only [eraseLoop, isRed_plug rep, red, Bool.true_eq_false, and_false, if_false]
  · refine fits.valid_plug balanced (fun red' => ?_)
    rw [Shape.isRed_blacken] at red'
    cases red'

theorem eraseRefill_ends (fuel : Nat) {d : Dir} {red : Bool} {n : Nat}
    (rep : Represents tree (rest.plug (.mk d red t px (.mk d false b sx c))))
    (t_balanced : t.Balanced n) (b_balanced : b.Balanced n) (c_balanced : c.Balanced n)
    (fits : Zipper.Fits (⟨d, red, px, .mk d false b sx c⟩ :: rest) (n + 1))
    (upward : ∀ tree' t' m, Represents tree' (rest.plug t') → t'.top = some px →
      t'.isRed = red → Short t' m → rest.Fits (m + 1) →
      Ends (fuel + 1) tree' (some px) rest.top (rest.plug t').elements) :
    ∃ child parent tree', eraseRefill d tree px sx = some (child, parent, tree') ∧
      Ends (fuel + 1) tree' child parent
        (rest.plug (.mk d red t px (.mk d false b sx c))).elements := by
  have both := both_black rep
  cases c_red : c.isRed with
  | true =>
      have some_red := both
      rw [c_red, Bool.not_true, Bool.and_false] at some_red
      obtain ⟨tree', ran, rotated⟩ := eraseRefill_done some_red (eraseTurn_far rep c_red) rep
      have near_balanced := (Shape.balanced_mk_black d t px b n).mpr ⟨t_balanced, b_balanced⟩
      have far_balanced := c_balanced.blacken c_red
      have fits' := fits.reframe (y := sx) far_balanced (Shape.isRed_blacken c)
      have valid := fits'.valid_plug near_balanced
        (fun red' => by rw [Shape.isRed_mk] at red'; cases red')
      refine ⟨_, _, tree', ran, ?_⟩
      have ended := ends_at_root fuel rotated valid (some px)
      rwa [Zipper.elements_plug_congr ((Shape.elements_rotate ..).trans
        (Shape.elements_mk_congr d red red px rfl (Shape.elements_mk_congr d red false sx rfl
          (Shape.elements_recolour false c)))) rest] at ended
  | false =>
      cases b_red : b.isRed with
      | true =>
          have some_red := both
          rw [b_red, Bool.not_true, Bool.false_and] at some_red
          obtain ⟨b₁, bx, b₂, rfl⟩ := Shape.exists_mk_of_red b_red d
          obtain ⟨b₁_balanced, b₂_balanced, b₁_black, b₂_black⟩ :=
            (Shape.balanced_mk_red ..).mp b_balanced
          obtain ⟨tree₁, turned, rep₁⟩ := eraseTurn_near rep c_red
          obtain ⟨tree', ran, rotated⟩ := eraseRefill_done some_red turned rep₁
          rw [Shape.recolour_mk] at rotated
          have near_balanced := (Shape.balanced_mk_black d t px b₁ n).mpr ⟨t_balanced, b₁_balanced⟩
          have far_balanced := (Shape.balanced_mk_black d b₂ sx c n).mpr ⟨b₂_balanced, c_balanced⟩
          have fits' := fits.reframe (y := bx) far_balanced (Shape.isRed_mk ..)
          have valid := fits'.valid_plug near_balanced
            (fun red' => by rw [Shape.isRed_mk] at red'; cases red')
          refine ⟨_, _, tree', ran, ?_⟩
          have ended := ends_at_root fuel rotated valid (some px)
          rwa [Zipper.elements_plug_congr ((Shape.elements_rotate ..).trans
            (Shape.elements_mk_congr d red red px rfl
              (Shape.elements_rotate d true false false false ..).symm)) rest] at ended
      | false =>
          obtain ⟨tree', ran, recoloured⟩ := eraseRefill_up rep b_red c_red
          refine ⟨_, _, tree', ran, ?_⟩
          have sibling := (Shape.balanced_mk_red d b sx c n).mpr
            ⟨b_balanced, c_balanced, b_red, c_red⟩
          have blackened := (Shape.balanced_mk_black d t px _ n).mpr ⟨t_balanced, sibling⟩
          rw [Zipper.elements_plug_congr (Shape.elements_mk_congr d red red px rfl
            (Shape.elements_mk_congr d false true sx rfl rfl)) rest]
          cases fits with
          | black colour _ fits =>
              cases colour
              exact upward tree' _ (n + 1) recoloured (Shape.top_mk ..) (Shape.isRed_mk ..)
                (Or.inl ⟨Shape.isRed_mk .., blackened⟩) fits
          | red colour _ _ _ fits =>
              cases colour
              refine upward tree' _ n recoloured (Shape.top_mk ..) (Shape.isRed_mk ..)
                (Or.inr ⟨Shape.isRed_mk .., ?_⟩) fits
              rw [Shape.recolour_mk]
              exact blackened

theorem eraseFixup_black (fuel : Nat) {d : Dir} {red : Bool} {n : Nat}
    (rep : Represents tree (rest.plug (.mk d red t px (.mk d false b sx c))))
    (t_balanced : t.Balanced n) (sibling : (Shape.mk d false b sx c).Balanced (n + 1))
    (fits : Zipper.Fits (⟨d, red, px, .mk d false b sx c⟩ :: rest) (n + 1))
    (upward : ∀ tree' t' m, Represents tree' (rest.plug t') → t'.top = some px →
      Short t' m → rest.Fits (m + 1) →
      Ends (fuel + 1) tree' (some px) rest.top (rest.plug t').elements) :
    ∃ child parent tree', eraseFixup d tree px = some (child, parent, tree') ∧
      Ends (fuel + 1) tree' child parent
        (rest.plug (.mk d red t px (.mk d false b sx c))).elements := by
  obtain ⟨b_balanced, c_balanced⟩ := (Shape.balanced_mk_black ..).mp sibling
  obtain ⟨child, parent, tree', ran, ended⟩ := eraseRefill_ends fuel rep t_balanced b_balanced
    c_balanced fits (fun tree' t' m rep' top _ => upward tree' t' m rep' top)
  refine ⟨child, parent, tree', ?_, ended⟩
  rw [eraseFixup, eraseSibling_black rep]
  exact ran

theorem eraseFixup_red (fuel : Nat) {d : Dir} {n : Nat}
    (rep : Represents tree (rest.plug (.mk d false t px (.mk d true b sx c))))
    (t_balanced : t.Balanced n) (sibling : (Shape.mk d true b sx c).Balanced (n + 1))
    (fits : rest.Fits (n + 2)) :
    ∃ child parent tree', eraseFixup d tree px = some (child, parent, tree') ∧
      Ends (fuel + 1) tree' child parent
        (rest.plug (.mk d false t px (.mk d true b sx c))).elements := by
  obtain ⟨b_balanced, c_balanced, b_black, _⟩ := (Shape.balanced_mk_red ..).mp sibling
  obtain ⟨red, b₁, bx, b₂, rfl⟩ := Shape.exists_mk_of_height b_balanced d
  rw [Shape.isRed_mk] at b_black
  subst b_black
  obtain ⟨b₁_balanced, b₂_balanced⟩ := (Shape.balanced_mk_black ..).mp b_balanced
  obtain ⟨tree₁, turned, rotated⟩ := eraseSibling_red rep (Shape.top_mk ..)
  have fits₁ : Zipper.Fits (⟨d, true, px, .mk d false b₁ bx b₂⟩ :: ⟨d, false, sx, c⟩ :: rest)
      (n + 1) := .red rfl b_balanced (Shape.isRed_mk ..) rfl (.black rfl c_balanced fits)
  obtain ⟨child, parent, tree', ran, ended⟩ := eraseRefill_ends fuel rotated t_balanced
    b₁_balanced b₂_balanced fits₁ (by
      intro tree' t' m rep' top red short fits'
      rcases short with ⟨black, _⟩ | ⟨_, balanced⟩
      · rw [red] at black
        cases black
      · rw [← top]
        exact ends_at_red fuel rep' red balanced fits' _)
  have order : (Zipper.plug (.mk d true t px (.mk d false b₁ bx b₂))
        (⟨d, false, sx, c⟩ :: rest)).elements =
      (rest.plug (.mk d false t px (.mk d true (.mk d false b₁ bx b₂) sx c))).elements :=
    Zipper.elements_plug_congr (Shape.elements_rotate ..) rest
  rw [order] at ended
  refine ⟨child, parent, tree', ?_, ended⟩
  simp only [eraseFixup, turned, Option.bind_eq_bind, Option.bind_some, ran]

theorem top_plug_mem (t : Shape Addr) (frame : Frame Addr) (above : Zipper Addr) :
    ∃ y ∈ Zipper.elements (frame :: above), (Zipper.plug t (frame :: above)).top = some y := by
  induction above generalizing t frame with
  | nil =>
      refine ⟨frame.x, by simp [Zipper.elements], ?_⟩
      rw [Zipper.plug, Zipper.plug, Frame.attach, Shape.top_mk]
  | cons next above ih =>
      obtain ⟨y, member, top⟩ := ih (frame.attach t) next
      exact ⟨y, List.mem_cons_of_mem _ (List.mem_append_right _ member), top⟩

theorem not_root {frame : Frame Addr} {above : Zipper Addr}
    (rep : Represents tree (Zipper.plug t (frame :: above))) : t.top ≠ tree.root := by
  intro same
  obtain ⟨y, member, top⟩ := top_plug_mem t frame above
  have here : t.top = some y := same.trans (rep.root.trans top)
  have nodup := (Zipper.elements_plug_perm t (frame :: above)).nodup_iff.mp rep.nodup
  exact (List.nodup_append.mp nodup).2.2 y member y (Shape.mem_top here) rfl

/-- One iteration below a frame, for a black subtree with a proper sibling. -/
theorem eraseLoop_step {d : Dir} {red red' : Bool} {above : Zipper Addr}
    (rep : Represents tree (above.plug (.mk d red t px (.mk d red' b sx c))))
    (black : t.isRed = false) (fuel : Nat) :
    eraseLoop (fuel + 1) tree t.top (some px) =
      (eraseFixup d tree px).bind fun next => eraseLoop fuel next.2.2 next.1 next.2.1 := by
  have frame : Represents tree (Zipper.plug t (⟨d, red, px, .mk d red' b sx c⟩ :: above)) := rep
  have different : (Shape.mk d red' b sx c).top ≠ t.top := by
    cases top : t.top with
    | none => simp
    | some y => exact sibling_ne frame top
  have going : t.top ≠ tree.root ∧ tree.isRed t.top = false :=
    ⟨not_root frame, (isRed_plug frame).trans black⟩
  have side := side_frame frame different
  simp only [eraseLoop, if_pos going, Option.bind_eq_bind, Option.bind_some, side]

theorem eraseLoop_ends (fuel : Nat) {n : Nat} (rep : Represents tree (path.plug t))
    (short : Short t n) (fits : path.Fits (n + 1)) (enough : path.length < fuel) :
    Ends fuel tree t.top path.top (path.plug t).elements := by
  induction fuel generalizing tree t path n with
  | zero => exact absurd enough (Nat.not_lt_zero _)
  | succ fuel ih =>
      rcases short with ⟨black, balanced⟩ | ⟨red, balanced⟩
      · cases path with
        | nil =>
            have ended := ends_at_root fuel rep ⟨black, n, balanced⟩ none
            rwa [rep.root] at ended
        | cons frame above =>
            obtain ⟨d, red, px, sibling⟩ := frame
            obtain ⟨m, rfl⟩ : ∃ m, fuel = m + 1 := by
              refine ⟨fuel - 1, ?_⟩
              simp only [List.length_cons] at enough
              omega
            have lower : above.length < m + 1 := by
              simp only [List.length_cons] at enough
              omega
            have sibling_balanced : sibling.Balanced (n + 1) := by
              cases fits with
              | black _ balanced' _ => exact balanced'
              | red _ balanced' _ _ _ => exact balanced'
            obtain ⟨red', b, sx, c, rfl⟩ := Shape.exists_mk_of_height sibling_balanced d
            have upward : ∀ tree' t' k, Represents tree' (Zipper.plug t' above) →
                t'.top = some px → Short t' k → Zipper.Fits above (k + 1) →
                Ends (m + 1) tree' (some px) (Zipper.top above)
                  (Zipper.plug t' above).elements := by
              intro tree' t' k rep' top short' fits'
              rw [← top]
              exact ih rep' short' fits' lower
            have fixed : ∃ child parent tree',
                eraseFixup d tree px = some (child, parent, tree') ∧
                  Ends (m + 1) tree' child parent
                    (Zipper.plug t (⟨d, red, px, .mk d red' b sx c⟩ :: above)).elements := by
              cases red' with
              | false => exact eraseFixup_black m rep balanced sibling_balanced fits upward
              | true =>
                  cases fits with
                  | red _ _ sibling_black _ _ =>
                      rw [Shape.isRed_mk] at sibling_black
                      cases sibling_black
                  | black colour _ fits =>
                      cases colour
                      exact eraseFixup_red m rep balanced sibling_balanced fits
            obtain ⟨child, parent, tree', ran, ended⟩ := fixed
            unfold Ends at ended ⊢
            rw [Zipper.top_cons, eraseLoop_step rep black (m + 1), ran]
            exact ended
      · exact ends_at_red fuel rep red balanced fits path.top

/-! ## The whole removal -/

/-- What is known of the subtree that takes the place of a node without a near
child. -/
structure Replaces (t : Shape Addr) (path : Zipper Addr) (red : Bool) (n : Nat) : Prop where
  balanced : t.Balanced n
  ofRed : red = true → t.isRed = false ∧ path.Fits n
  ofBlack : red = false → path.Fits (n + 1)

theorem exists_replaces {d : Dir} {red : Bool}
    (valid : (path.plug (.mk d red .leaf x t)).Valid) : ∃ n, Replaces t path red n := by
  obtain ⟨n, balanced, fits, _⟩ := Zipper.exists_fits valid
  cases red with
  | true =>
      obtain ⟨_, t_balanced, _, t_black⟩ := (Shape.balanced_mk_red ..).mp balanced
      exact ⟨n, t_balanced, fun _ => ⟨t_black, fits⟩, nofun⟩
  | false =>
      cases n with
      | zero => exact (Shape.balanced_mk_zero _ _ _ _ balanced).elim
      | succ n =>
          obtain ⟨_, t_balanced⟩ := (Shape.balanced_mk_black ..).mp balanced
          exact ⟨n, t_balanced, nofun, fun _ => fits⟩

theorem Replaces.rename {d : Dir} {red red' : Bool} {y : Addr} {s : Shape Addr}
    {spine : Zipper Addr} {n : Nat}
    (replaces : Replaces t (spine ++ ⟨d, red, x, s⟩ :: path) red' n) :
    Replaces t (spine ++ ⟨d, red, y, s⟩ :: path) red' n where
  balanced := replaces.balanced
  ofRed := fun colour => ⟨(replaces.ofRed colour).1, (replaces.ofRed colour).2.rename y⟩
  ofBlack := fun colour => (replaces.ofBlack colour).rename y

theorem rbErase_of_remove {fuel n : Nat} {red : Bool} {tree₁ : RbTree}
    (removed : remove fuel tree x = some ⟨t.top, path.top, red, tree₁⟩)
    (rep : Represents tree₁ (path.plug t)) (replaces : Replaces t path red n)
    (enough : path.length < fuel) :
    ∃ tree' shape, rbErase fuel tree x = some tree' ∧ Represents tree' shape ∧ shape.Valid ∧
      shape.elements = (path.plug t).elements := by
  cases red with
  | true =>
      obtain ⟨black, fits⟩ := replaces.ofRed rfl
      refine ⟨tree₁, _, ?_, rep, fits.valid_plug replaces.balanced ?_, rfl⟩
      · simp only [rbErase, removed, Option.bind_eq_bind, Option.bind_some, Bool.true_eq_false,
          if_false]
      · intro red
        rw [black] at red
        cases red
  | false =>
      have short : Short t n := by
        cases red : t.isRed with
        | false => exact Or.inl ⟨red, replaces.balanced⟩
        | true => exact Or.inr ⟨red, replaces.balanced.blacken red⟩
      obtain ⟨shape, path', tree', ran, rep', same, valid⟩ :=
        eraseLoop_ends fuel rep short (replaces.ofBlack rfl) enough
      refine ⟨_, _, ?_, blacken_plug rep', valid, ?_⟩
      · simp only [rbErase, removed, Option.bind_eq_bind, Option.bind_some, if_true, ran]
      · rw [Zipper.elements_plug_congr (Shape.elements_recolour false shape), same]

theorem rbErase_spec (fuel : Nat) {red : Bool}
    (rep : Represents tree (path.plug (.node red l x r)))
    (valid : (path.plug (.node red l x r)).Valid)
    (enough : (path.plug (.node red l x r)).elements.length ≤ fuel) :
    ∃ tree' shape, rbErase fuel tree x = some tree' ∧ Represents tree' shape ∧ shape.Valid ∧
      shape.elements = path.before ++ (l.elements ++ r.elements) ++ path.after := by
  have node := node_plug (d := .left) rep
  have left : tree.child .left x = l.top := by rw [RbTree.child, node]; rfl
  have right : tree.child .right x = r.top := by rw [RbTree.child, node]; rfl
  have room := Nat.le_trans (Zipper.length_le (.node red l x r) path) enough
  simp only [Shape.elements, List.length_append, List.length_cons] at room
  cases l with
  | leaf =>
      obtain ⟨n, replaces⟩ := exists_replaces (d := .left) valid
      obtain ⟨tree₁, removed, rep₁⟩ := removeSingle_spec (d := .left) rep
      have no_left : tree.child .left x = none := left
      have ran : remove fuel tree x = some ⟨r.top, path.top, red, tree₁⟩ := by
        simp only [remove, no_left, right, removed]
      obtain ⟨tree', shape, ran', rep', valid', same⟩ :=
        rbErase_of_remove ran rep₁ replaces (by omega)
      refine ⟨tree', shape, ran', rep', valid', ?_⟩
      rw [same, Zipper.elements_plug]
      rfl
  | node red_l ll lx lr =>
      cases r with
      | leaf =>
          obtain ⟨n, replaces⟩ := exists_replaces (d := .right) valid
          obtain ⟨tree₁, removed, rep₁⟩ := removeSingle_spec (d := .right) rep
          have ran : remove fuel tree x = some ⟨some lx, path.top, red, tree₁⟩ := by
            simp only [remove, left, right, Shape.top]
            exact congrArg some removed
          obtain ⟨tree', shape, ran', rep', valid', same⟩ :=
            rbErase_of_remove ran rep₁ replaces (by omega)
          refine ⟨tree', shape, ran', rep', valid', ?_⟩
          rw [same, Zipper.elements_plug]
          simp [Shape.elements]
      | node red_r rl rx rr =>
          have lower : Represents tree (Zipper.plug (.node red_r rl rx rr)
              (⟨.right, red, x, .node red_l ll lx lr⟩ :: path)) := rep
          obtain ⟨red', y, u, spine, split, turns, found⟩ :=
            leftmost_spec fuel lower rfl (by omega)
          have top : (Zipper.plug (.node red' .leaf y u) spine).top = some rx := by
            rw [← split]
            rfl
          have onward : ∀ t z, Zipper.plug t (spine ++ ⟨.right, red, z, .node red_l ll lx lr⟩ ::
              path) = path.plug (.node red (.node red_l ll lx lr) z (Zipper.plug t spine)) :=
            fun t z => Zipper.plug_append t spine _
          have order : (Shape.node red_r rl rx rr).elements =
              y :: (Zipper.plug u spine).elements := by
            rw [split, Zipper.elements_plug, Zipper.elements_plug, Zipper.before_of_left turns]
            simp [Shape.elements]
          rw [split] at rep valid enough
          obtain ⟨tree₁, removed, rep₁⟩ := removeDouble_spec fuel turns rep rfl top found
          rw [← onward] at valid enough
          have ran : remove fuel tree x = some ⟨u.top, Zipper.top (spine ++
              ⟨.right, red, y, .node red_l ll lx lr⟩ :: path), red', tree₁⟩ := by
            simp only [remove, left, right, Shape.top]
            exact removed
          obtain ⟨n, replaces⟩ := exists_replaces (d := .left) valid
          have short := Nat.le_trans (Zipper.length_le _ _) enough
          simp only [Shape.elements, List.length_append, List.length_cons] at short
          obtain ⟨tree', shape, ran', rep', valid', same⟩ :=
            rbErase_of_remove ran rep₁ replaces.rename (by
              simp only [List.length_append, List.length_cons]
              omega)
          refine ⟨tree', shape, ran', rep', valid', ?_⟩
          rw [same, onward, Zipper.elements_plug, order]
          rfl

/-! ## Any node of any tree -/

theorem leftmost_mono {fuel more : Nat} (le : fuel ≤ more) {tree : RbTree} {n least : Addr}
    (ran : leftmost fuel tree n = some least) : leftmost more tree n = some least := by
  induction fuel generalizing more n with
  | zero => cases ran
  | succ fuel ih =>
      obtain ⟨more, rfl⟩ : ∃ m, more = m + 1 := ⟨more - 1, by omega⟩
      simp only [leftmost] at ran ⊢
      cases down : tree.child .left n with
      | none => simpa only [down] using ran
      | some left =>
          simp only [down] at ran ⊢
          exact ih (by omega) ran

theorem remove_mono {fuel more : Nat} (le : fuel ≤ more) {tree : RbTree} {node : Addr}
    {removed : Removed} (ran : remove fuel tree node = some removed) :
    remove more tree node = some removed := by
  simp only [remove] at ran ⊢
  split at ran
  · exact ran
  · exact ran
  · simp only [removeDouble, Option.bind_eq_bind, Option.bind_eq_some_iff] at ran ⊢
    obtain ⟨least, found, rest⟩ := ran
    exact ⟨least, leftmost_mono le found, rest⟩

theorem eraseLoop_mono {fuel more : Nat} (le : fuel ≤ more) {tree : RbTree}
    {child parent : Option Addr} {last : Option Addr × RbTree}
    (ran : eraseLoop fuel tree child parent = some last) :
    eraseLoop more tree child parent = some last := by
  induction fuel generalizing more tree child parent with
  | zero => cases ran
  | succ fuel ih =>
      obtain ⟨more, rfl⟩ : ∃ m, more = m + 1 := ⟨more - 1, by omega⟩
      simp only [eraseLoop] at ran ⊢
      split
      · rename_i goes_on
        rw [if_pos goes_on] at ran
        simp only [Option.bind_eq_bind, Option.bind_eq_some_iff] at ran ⊢
        obtain ⟨above, there, ⟨child', parent', fixed⟩, turned, rest⟩ := ran
        exact ⟨above, there, (child', parent', fixed), turned, ih (by omega) rest⟩
      · rename_i stops
        rwa [if_neg stops] at ran

theorem rbErase_mono {fuel more : Nat} (le : fuel ≤ more) {tree tree' : RbTree} {node : Addr}
    (ran : rbErase fuel tree node = some tree') : rbErase more tree node = some tree' := by
  simp only [rbErase, Option.bind_eq_bind, Option.bind_eq_some_iff] at ran ⊢
  obtain ⟨removed, took, rest⟩ := ran
  refine ⟨removed, remove_mono le took, ?_⟩
  split
  · rename_i black
    simp only [black, if_true, Option.bind_eq_some_iff] at rest ⊢
    obtain ⟨⟨child, fixed⟩, looped, done⟩ := rest
    exact ⟨(child, fixed), eraseLoop_mono le looped, done⟩
  · rename_i red
    rwa [if_neg red] at rest

/-- `rb_erase` of any node of a valid tree ends with a valid tree that holds the other
nodes in the same order. -/
theorem rb_erase_correct (tree : RbTree) (shape : Shape Addr) (x : Addr)
    (rep : Represents tree shape) (valid : shape.Valid) (member : x ∈ shape.elements) :
    ∃ (tree' : RbTree) (shape' : Shape Addr),
      (∀ fuel, shape.elements.length ≤ fuel → rbErase fuel tree x = some tree') ∧
      Represents tree' shape' ∧ shape'.Valid ∧ shape'.elements = shape.elements.erase x := by
  obtain ⟨path, red, left, right, whole⟩ := Zipper.exists_plug member []
  rw [Zipper.plug] at whole
  subst whole
  obtain ⟨tree', shape', ran, rep', valid', order⟩ := rbErase_spec _ rep valid (Nat.le_refl _)
  have once := rep.nodup
  have split : (path.plug (.node red left x right)).elements =
      (path.before ++ left.elements) ++ x :: (right.elements ++ path.after) := by
    simp [Zipper.elements_plug, Shape.elements]
  rw [split] at once
  have not_before : x ∉ path.before ++ left.elements := by
    intro before
    exact (List.nodup_append.mp once).2.2 x before x List.mem_cons_self rfl
  refine ⟨tree', shape', fun fuel enough => rbErase_mono enough ran, rep', valid', ?_⟩
  rw [order, split, List.erase_append_right _ not_before, List.erase_cons_head]
  simp

/-- The root has two children, its successor is the right one and black, and the sibling of what
takes its place is red. -/
def fiveNodes : Shape Addr :=
  .node false (.node true (.node false .leaf 10 .leaf) 20 (.node false .leaf 30 .leaf)) 40
    (.node false .leaf 60 .leaf)

theorem fiveNodes_valid : fiveNodes.Valid :=
  ⟨rfl, 2, .black (.red (.black .leaf .leaf) (.black .leaf .leaf) rfl rfl) (.black .leaf .leaf)⟩

theorem rb_erase_correct_root :
    ∃ (tree' : RbTree) (shape' : Shape Addr),
      (∀ fuel, 5 ≤ fuel → rbErase fuel (treeOf fiveNodes) 40 = some tree') ∧
      Represents tree' shape' ∧ shape'.Valid ∧ shape'.elements = fiveNodes.elements.erase 40 :=
  rb_erase_correct (treeOf fiveNodes) fiveNodes 40 (represents_treeOf (by decide)) fiveNodes_valid
    (by decide)

end ApnaOS.Process
