import Mathlib.Data.List.Nodup
import ApnaOS.Lib.Separation
import ApnaOS.Process.RbTree

/-!
# Trees in memory

When memory holds a given tree, and what each pointer operation does to it.  The
locations are the node addresses and, as `none`, the root pointer.
-/

set_option autoImplicit false

namespace ApnaOS.Process

open ApnaOS.Lib
open Function (update update_self update_of_ne)

def SameAt (before after : RbTree) : Option Addr → Prop
  | none => after.root = before.root
  | some a => after.node a = before.node a

abbrev RbPiece := Piece SameAt

/-- A node record whose `d` child is `near`. -/
def nodeOf (d : Dir) (near far parent : Option Addr) (red : Bool) : RbNode :=
  match d with
  | .left => ⟨near, far, parent, red⟩
  | .right => ⟨far, near, parent, red⟩

section NodeOf

variable (d : Dir) (near far parent : Option Addr) (red : Bool)

theorem nodeOf_other : nodeOf d.other near far parent red = nodeOf d far near parent red := by
  cases d <;> rfl

@[simp] theorem child_nodeOf : (nodeOf d near far parent red).child d = near := by
  cases d <;> rfl

@[simp] theorem child_other_nodeOf : (nodeOf d near far parent red).child d.other = far := by
  cases d <;> rfl

@[simp] theorem rbParent_nodeOf : (nodeOf d near far parent red).rbParent = parent := by
  cases d <;> rfl

@[simp] theorem rbRed_nodeOf : (nodeOf d near far parent red).rbRed = red := by
  cases d <;> rfl

@[simp] theorem setChild_nodeOf (child : Option Addr) :
    (nodeOf d near far parent red).setChild d child = nodeOf d child far parent red := by
  cases d <;> rfl

@[simp] theorem setChild_other_nodeOf (child : Option Addr) :
    (nodeOf d near far parent red).setChild d.other child = nodeOf d near child parent red := by
  cases d <;> rfl

@[simp] theorem setParent_nodeOf (parent' : Option Addr) :
    (nodeOf d near far parent red).setParent parent' = nodeOf d near far parent' red := by
  cases d <;> rfl

@[simp] theorem setRed_nodeOf (red' : Bool) :
    (nodeOf d near far parent red).setRed red' = nodeOf d near far parent red' := by
  cases d <;> rfl

end NodeOf

/-! ## Pieces -/

/-- Memory holds this tree, whose top node has this parent pointer. -/
def Rep (tree : RbTree) : Shape Addr → Option Addr → Prop
  | .leaf, _ => True
  | .node red left x right, parent =>
      tree.node x = ⟨left.top, right.top, parent, red⟩ ∧
        Rep tree left (some x) ∧ Rep tree right (some x)

/-- Memory holds this path, with `hole` as the pointer to what hangs below it. -/
def RepZipper (tree : RbTree) : Zipper Addr → Option Addr → Prop
  | [], hole => tree.root = hole
  | frame :: above, hole =>
      tree.node frame.x = nodeOf frame.dir hole frame.sibling.top (Zipper.top above) frame.red ∧
        Rep tree frame.sibling (some frame.x) ∧ RepZipper tree above (some frame.x)

theorem Rep.stable {before after : RbTree} {shape : Shape Addr} {parent : Option Addr}
    (same : ∀ a ∈ shape.elements, after.node a = before.node a)
    (rep : Rep before shape parent) : Rep after shape parent := by
  induction shape generalizing parent with
  | leaf => trivial
  | node red left x right ihl ihr =>
      obtain ⟨here, below, below'⟩ := rep
      refine ⟨(same x (by simp [Shape.elements])).trans here, ?_, ?_⟩
      · exact ihl (fun a member => same a (by simp [Shape.elements, member])) below
      · exact ihr (fun a member => same a (by simp [Shape.elements, member])) below'

theorem RepZipper.stable {before after : RbTree} {path : Zipper Addr} {hole : Option Addr}
    (sameRoot : after.root = before.root)
    (same : ∀ a ∈ path.elements, after.node a = before.node a)
    (rep : RepZipper before path hole) : RepZipper after path hole := by
  induction path generalizing hole with
  | nil => exact sameRoot.trans rep
  | cons frame above ih =>
      obtain ⟨here, beside, rest⟩ := rep
      refine ⟨(same _ (by simp [Zipper.elements])).trans here, ?_, ?_⟩
      · exact beside.stable fun a member => same a (by simp [Zipper.elements, member])
      · exact ih (fun a member => same a (by simp [Zipper.elements, member])) rest

def cell (a : Addr) (node : RbNode) : RbPiece where
  owns := [some a]
  Holds tree := tree.node a = node
  stable := fun same holds => (same _ (List.mem_singleton_self _)).trans holds

def sub (shape : Shape Addr) (parent : Option Addr) : RbPiece where
  owns := shape.elements.map some
  Holds tree := Rep tree shape parent
  stable := fun same rep => rep.stable fun _ member => same _ (List.mem_map_of_mem member)

def hole (path : Zipper Addr) (below : Option Addr) : RbPiece where
  owns := none :: path.elements.map some
  Holds tree := RepZipper tree path below
  stable := fun same rep => rep.stable (same _ List.mem_cons_self)
    fun _ member => same _ (List.mem_cons_of_mem _ (List.mem_map_of_mem member))

variable {tree : RbTree} {pieces : List RbPiece}

theorem rep_mk (d : Dir) (red : Bool) (near : Shape Addr) (x : Addr) (far : Shape Addr)
    (parent : Option Addr) :
    Rep tree (.mk d red near x far) parent ↔
      tree.node x = nodeOf d near.top far.top parent red ∧
        Rep tree near (some x) ∧ Rep tree far (some x) := by
  cases d with
  | left => exact Iff.rfl
  | right => exact and_congr Iff.rfl and_comm

theorem unfold_sub (d : Dir) (red : Bool) (near : Shape Addr) (x : Addr) (far : Shape Addr)
    (parent : Option Addr) :
    Separate tree (sub (.mk d red near x far) parent :: pieces) ↔
      Separate tree (cell x (nodeOf d near.top far.top parent red) :: sub near (some x) ::
        sub far (some x) :: pieces) := by
  apply Separate.unfold [cell x (nodeOf d near.top far.top parent red), sub near (some x),
    sub far (some x)]
  · have perm := (Shape.elements_mk_perm d red near x far).map some
    simpa [owned, cell, sub] using perm
  · simpa [cell, sub] using rep_mk d red near x far parent

theorem unfold_single (red : Bool) (x : Addr) (parent : Option Addr) :
    Separate tree (sub (.node red .leaf x .leaf) parent :: pieces) ↔
      Separate tree (cell x ⟨none, none, parent, red⟩ :: pieces) := by
  apply Separate.unfold [cell x ⟨none, none, parent, red⟩]
  · exact List.Perm.refl _
  · simp [cell, sub, Rep, Shape.top]

theorem unfold_hole (frame : Frame Addr) (above : Zipper Addr) (below : Option Addr) :
    Separate tree (hole (frame :: above) below :: pieces) ↔
      Separate tree (cell frame.x
          (nodeOf frame.dir below frame.sibling.top (Zipper.top above) frame.red) ::
        sub frame.sibling (some frame.x) :: hole above (some frame.x) :: pieces) := by
  apply Separate.unfold [cell frame.x
    (nodeOf frame.dir below frame.sibling.top (Zipper.top above) frame.red),
    sub frame.sibling (some frame.x), hole above (some frame.x)]
  · have swap : (none :: some frame.x :: (frame.sibling.elements.map some ++
        (Zipper.elements above).map some)).Perm
        (some frame.x :: (frame.sibling.elements.map some ++
          none :: (Zipper.elements above).map some)) :=
      (List.Perm.swap _ _ _).trans (List.Perm.cons _ List.perm_middle.symm)
    simpa [owned, cell, sub, hole, Zipper.elements] using swap
  · simp [cell, sub, hole, RepZipper]

def Represents (tree : RbTree) (shape : Shape Addr) : Prop :=
  Separate tree [sub shape none, hole [] shape.top]

theorem represents_plug (shape : Shape Addr) (path : Zipper Addr) :
    Represents tree (path.plug shape) ↔
      Separate tree [sub shape path.top, hole path shape.top] := by
  induction path generalizing shape with
  | nil => exact Iff.rfl
  | cons frame above ih =>
      have opened : Separate tree [sub (frame.attach shape) (Zipper.top above),
          hole above (frame.attach shape).top] ↔
          Separate tree [cell frame.x (nodeOf frame.dir shape.top frame.sibling.top
            (Zipper.top above) frame.red), sub shape (some frame.x),
            sub frame.sibling (some frame.x), hole above (some frame.x)] := by
        rw [Frame.attach, unfold_sub, Shape.top_mk]
      have swapped : Separate tree [hole (frame :: above) shape.top, sub shape (some frame.x)] ↔
          Separate tree [cell frame.x (nodeOf frame.dir shape.top frame.sibling.top
            (Zipper.top above) frame.red), sub frame.sibling (some frame.x),
            hole above (some frame.x), sub shape (some frame.x)] := unfold_hole _ _ _
      rw [Zipper.plug, ih, opened]
      constructor
      · intro separate
        have ordered := (((separate.pick 1 rfl).pick 3 rfl).pick 3 rfl).pick 3 rfl
        exact (swapped.mpr ordered).pick 1 rfl
      · intro separate
        have parts := swapped.mp (separate.pick 1 rfl)
        exact (((parts.pick 2 rfl).pick 2 rfl).pick 3 rfl).pick 3 rfl

/-! ## Reading and writing -/

theorem node_cell {a : Addr} {node : RbNode} (separate : Separate tree (cell a node :: pieces)) :
    tree.node a = node := separate.head

theorem sameAt_setNode (a : Addr) (node : RbNode) (l : Option Addr) (other : l ∉ [some a]) :
    SameAt tree (tree.setNode a node) l := by
  cases l with
  | none => rfl
  | some b =>
      have different : b ≠ a := fun same => other (by simp [same])
      exact update_of_ne different ..

theorem write_cell {a : Addr} {node : RbNode} (separate : Separate tree (cell a node :: pieces))
    (node' : RbNode) : Separate (tree.setNode a node') (cell a node' :: pieces) := by
  have holds : update tree.node a node' a = node' := update_self ..
  exact separate.write (sameAt_setNode a node') rfl holds

theorem alloc_cell {a : Addr} (separate : Separate tree pieces) (fresh : some a ∉ owned pieces)
    (node : RbNode) : Separate (tree.setNode a node) (cell a node :: pieces) := by
  have holds : update tree.node a node a = node := update_self ..
  refine separate.alloc (List.nodup_singleton _) ?_ (sameAt_setNode a node) holds
  intro l here
  rw [List.mem_singleton.mp here]
  exact fresh

theorem setChild_cell {a : Addr} {node : RbNode}
    (separate : Separate tree (cell a node :: pieces)) (d : Dir) (child : Option Addr) :
    Separate (tree.setChild d a child) (cell a (node.setChild d child) :: pieces) := by
  have here := node_cell separate
  subst here
  exact write_cell separate _

theorem setParent_cell {a : Addr} {node : RbNode}
    (separate : Separate tree (cell a node :: pieces)) (parent : Option Addr) :
    Separate (tree.setParent a parent) (cell a (node.setParent parent) :: pieces) := by
  have here := node_cell separate
  subst here
  exact write_cell separate _

theorem setRed_cell {a : Addr} {node : RbNode}
    (separate : Separate tree (cell a node :: pieces)) (red : Bool) :
    Separate (tree.setRed a red) (cell a (node.setRed red) :: pieces) := by
  have here := node_cell separate
  subst here
  exact write_cell separate _

theorem adopt_sub {shape : Shape Addr} {parent : Option Addr}
    (separate : Separate tree (sub shape parent :: pieces)) (parent' : Option Addr) :
    Separate (tree.adopt parent' shape.top) (sub shape parent' :: pieces) := by
  cases shape with
  | leaf => exact separate.write (fun _ _ => by rename_i l _; cases l <;> rfl) rfl trivial
  | node red left x right =>
      have opened := (unfold_sub .left red left x right parent).mp separate
      have written := setParent_cell opened parent'
      rw [setParent_nodeOf] at written
      exact (unfold_sub .left red left x right parent').mpr written

theorem blacken_sub {shape : Shape Addr} {parent : Option Addr}
    (separate : Separate tree (sub shape parent :: pieces)) :
    Separate (tree.blacken shape.top) (sub (shape.recolour false) parent :: pieces) := by
  cases shape with
  | leaf => exact separate
  | node red left x right =>
      have opened := (unfold_sub .left red left x right parent).mp separate
      have written := setRed_cell opened false
      rw [setRed_nodeOf] at written
      exact (unfold_sub .left false left x right parent).mpr written

theorem isRed_sub {shape : Shape Addr} {parent : Option Addr}
    (separate : Separate tree (sub shape parent :: pieces)) :
    tree.isRed shape.top = shape.isRed := by
  cases shape with
  | leaf => rfl
  | node red left x right =>
      have here := ((unfold_sub .left red left x right parent).mp separate).head
      exact congrArg RbNode.rbRed here

def linkOf : Zipper Addr → Link
  | [] => .root
  | frame :: _ => .child frame.dir frame.x

theorem store_hole {path : Zipper Addr} {below : Option Addr}
    (separate : Separate tree (hole path below :: pieces)) (new : Option Addr) :
    Separate (tree.store (linkOf path) new) (hole path new :: pieces) := by
  cases path with
  | nil =>
      refine separate.write ?_ rfl rfl
      intro l outside
      cases l with
      | none => exact absurd List.mem_cons_self outside
      | some b => rfl
  | cons frame above =>
      have opened := (unfold_hole frame above below).mp separate
      have written := setChild_cell opened frame.dir new
      rw [setChild_nodeOf] at written
      exact (unfold_hole frame above new).mpr written

theorem relink_eq_store {path : Zipper Addr} {old : Addr}
    (separate : Separate tree (hole path (some old) :: pieces)) (foreign : old ∉ path.elements)
    (d : Dir) (new : Option Addr) :
    tree.relink d path.top old new = tree.store (linkOf path) new := by
  cases path with
  | nil => rfl
  | cons frame above =>
      have here := node_cell ((unfold_hole frame above (some old)).mp separate)
      obtain ⟨e, red, x, sibling⟩ := frame
      have beside : sibling.top ≠ some old := by
        intro same
        exact foreign (by simp [Zipper.elements, Shape.mem_top same])
      rcases Dir.eq_or_other d e with same | opposite
      · subst same
        have found : tree.child e x = some old := by
          rw [RbTree.child, here, child_nodeOf]
        simp only [Zipper.top, RbTree.relink, found, if_true, linkOf, RbTree.store]
      · subst opposite
        have missed : tree.child d x ≠ some old := by
          rw [RbTree.child, here, nodeOf_other, child_nodeOf]
          exact beside
        simp only [Zipper.top, RbTree.relink, if_neg missed, linkOf, RbTree.store]

theorem relink_hole {path : Zipper Addr} {old : Addr}
    (separate : Separate tree (hole path (some old) :: pieces)) (foreign : old ∉ path.elements)
    (d : Dir) (new : Option Addr) :
    Separate (tree.relink d path.top old new) (hole path new :: pieces) := by
  rw [relink_eq_store separate foreign]
  exact store_hole separate new

theorem cell_foreign {a : Addr} {node : RbNode} {path : Zipper Addr} {below : Option Addr}
    (separate : Separate tree (cell a node :: hole path below :: pieces)) :
    a ∉ path.elements := by
  intro member
  apply separate.not_owned (List.mem_singleton_self (some a))
  exact List.mem_append_left _ (List.mem_cons_of_mem _ (List.mem_map_of_mem member))

/-! ## Rotation -/

theorem rotate_spec (d : Dir) {c₁ c₂ : Bool} {a b c : Shape Addr} {x y : Addr} {path : Zipper Addr}
    (rep : Represents tree (path.plug (.mk d c₁ a x (.mk d c₂ b y c)))) :
    ∃ tree', rotate d tree x = some tree' ∧
      Represents tree' (path.plug (.mk d c₂ (.mk d c₁ a x b) y c)) := by
  have whole := (represents_plug _ _).mp rep
  rw [unfold_sub, Shape.top_mk, Shape.top_mk] at whole
  have parts := (unfold_sub _ _ _ _ _ _).mp (whole.pick 2 rfl)
  -- y, b, c, x, a, path
  have atY := node_cell parts
  have atX := node_cell (parts.pick 3 rfl)
  have step₁ := setChild_cell (parts.pick 3 rfl) d.other b.top
  have step₂ := adopt_sub (step₁.pick 2 rfl) (some x)
  have step₃ := setChild_cell (step₂.pick 2 rfl) d (some x)
  have step₄ := setParent_cell (step₃.pick 2 rfl) (some y)
  have step₅ := setParent_cell (step₄.pick 1 rfl) path.top
  have foreign := cell_foreign ((step₅.pick 5 rfl).pick 2 rfl)
  have step₆ := relink_hole (step₅.pick 5 rfl) foreign d (some y)
  simp only [setChild_nodeOf, setChild_other_nodeOf, setParent_nodeOf] at step₆
  obtain ⟨tree', ran, written⟩ : ∃ tree', rotate d tree x = some tree' ∧
      Separate tree' [hole path (some y), cell y (nodeOf d (some x) c.top path.top c₂),
        cell x (nodeOf d a.top b.top (some y) c₁), sub b (some x), sub c (some y),
        sub a (some x)] := by
    refine ⟨_, ?_, step₆⟩
    simp only [rotate, RbTree.child, RbTree.parent, atX, atY, child_nodeOf, child_other_nodeOf,
      rbParent_nodeOf, Option.bind_eq_bind, Option.bind_some]
  have lower : Separate tree' [cell x (nodeOf d a.top b.top (some y) c₁), sub a (some x),
      sub b (some x), hole path (some y), cell y (nodeOf d (some x) c.top path.top c₂),
      sub c (some y)] := ((written.pick 3 rfl).pick 5 rfl).pick 4 rfl
  have folded := (unfold_sub d c₁ a x b (some y)).mpr lower
  have upper : Separate tree' [cell y (nodeOf d (Shape.mk d c₁ a x b).top c.top path.top c₂),
      sub (.mk d c₁ a x b) (some y), sub c (some y), hole path (some y)] := by
    rw [Shape.top_mk]
    exact ((folded.pick 3 rfl).pick 1 rfl).pick 3 rfl
  have above := (unfold_sub d c₂ (.mk d c₁ a x b) y c path.top).mpr upper
  rw [← Shape.top_mk d c₂ (.mk d c₁ a x b) y c] at above
  exact ⟨tree', ran, (represents_plug _ _).mpr above⟩

/-! ## A whole tree -/

theorem Represents.root {shape : Shape Addr} (rep : Represents tree shape) :
    tree.root = shape.top := (rep.pick 1 rfl).head

theorem represents_empty (empty : tree.root = none) : Represents tree Shape.leaf where
  nodup := by simp [owned, sub, hole, Shape.elements, Zipper.elements]
  holds := by simp [sub, hole, Rep, RepZipper, Shape.top, empty]

def writeTree : Shape Addr → Option Addr → (Addr → RbNode) → Addr → RbNode
  | .leaf, _, node => node
  | .node red left x right, parent, node =>
      writeTree right (some x) (writeTree left (some x)
        (update node x ⟨left.top, right.top, parent, red⟩))

def treeOf (shape : Shape Addr) : RbTree where
  node := writeTree shape none fun _ => ⟨none, none, none, false⟩
  root := shape.top

theorem writeTree_outside {shape : Shape Addr} {parent : Option Addr} {node : Addr → RbNode} {a : Addr}
    (outside : a ∉ shape.elements) : writeTree shape parent node a = node a := by
  induction shape generalizing parent node with
  | leaf => rfl
  | node red left x right ihl ihr =>
      simp only [Shape.elements, List.mem_append, List.mem_cons, not_or] at outside
      obtain ⟨inLeft, different, inRight⟩ := outside
      rw [writeTree, ihr inRight, ihl inLeft, update_of_ne different]

theorem rep_writeTree {shape : Shape Addr} {parent root : Option Addr} {node : Addr → RbNode}
    (nodup : shape.elements.Nodup) : Rep ⟨writeTree shape parent node, root⟩ shape parent := by
  induction shape generalizing parent node with
  | leaf => trivial
  | node red left x right ihl ihr =>
      obtain ⟨once, rest, apart⟩ := List.nodup_append.mp nodup
      obtain ⟨inRight, once'⟩ := List.nodup_cons.mp rest
      have inLeft : x ∉ left.elements := fun member => apart x member x List.mem_cons_self rfl
      refine ⟨?_, ?_, ihr once'⟩
      · exact (writeTree_outside inRight).trans ((writeTree_outside inLeft).trans (update_self ..))
      · have first : Rep ⟨writeTree left (some x) (update node x ⟨left.top, right.top, parent, red⟩),
            root⟩ left (some x) := ihl once
        refine first.stable ?_
        intro a member
        exact writeTree_outside fun clash => apart a member a (List.mem_cons_of_mem x clash) rfl

theorem represents_treeOf {shape : Shape Addr} (nodup : shape.elements.Nodup) :
    Represents (treeOf shape) shape where
  nodup := by
    have places : (shape.elements.map some).Nodup := nodup.map fun _ _ same => Option.some.inj same
    simpa [owned, sub, hole, Zipper.elements, List.nodup_append] using places
  holds := by
    simpa [sub, hole, RepZipper, treeOf] using rep_writeTree nodup

theorem Represents.nodup {shape : Shape Addr} (rep : Represents tree shape) :
    shape.elements.Nodup := by
  have nodup : (owned [sub shape none, hole [] shape.top]).Nodup := Separate.nodup rep
  exact List.Nodup.of_map some (List.nodup_append.mp nodup).1

section Plug

variable {shape : Shape Addr} {path : Zipper Addr}

theorem isRed_plug (rep : Represents tree (path.plug shape)) :
    tree.isRed shape.top = shape.isRed :=
  isRed_sub ((represents_plug _ _).mp rep)

theorem node_plug {d : Dir} {red : Bool} {near far : Shape Addr} {x : Addr}
    (rep : Represents tree (path.plug (.mk d red near x far))) :
    tree.node x = nodeOf d near.top far.top path.top red :=
  node_cell ((unfold_sub _ _ _ _ _ _).mp ((represents_plug _ _).mp rep))

theorem node_frame {frame : Frame Addr} (rep : Represents tree (Zipper.plug shape (frame :: path))) :
    tree.node frame.x = nodeOf frame.dir shape.top frame.sibling.top path.top frame.red :=
  node_plug rep

theorem parent_plug {x : Addr} (rep : Represents tree (path.plug shape))
    (here : shape.top = some x) : tree.parent x = path.top := by
  cases shape with
  | leaf => cases here
  | node red left y right =>
      cases here
      have node := node_plug (d := .left) rep
      rw [RbTree.parent, node]
      rfl

theorem setRed_plug {x : Addr} (rep : Represents tree (path.plug shape))
    (here : shape.top = some x) (red : Bool) :
    Represents (tree.setRed x red) (path.plug (shape.recolour red)) := by
  have separate := (represents_plug _ _).mp rep
  rw [represents_plug, Shape.top_recolour]
  cases shape with
  | leaf => cases here
  | node red' left y right =>
      cases here
      have written := setRed_cell ((unfold_sub .left red' left x right path.top).mp separate) red
      rw [setRed_nodeOf] at written
      exact (unfold_sub .left red left x right path.top).mpr written

theorem plug_far (d : Dir) (red : Bool) (near : Shape Addr) (x : Addr) (far : Shape Addr) :
    path.plug (.mk d red near x far) = Zipper.plug far (⟨d.other, red, x, near⟩ :: path) := by
  rw [Zipper.plug, Frame.attach, Shape.mk_other]

theorem setRed_near {d : Dir} {red : Bool} {near far : Shape Addr} {x y : Addr}
    (rep : Represents tree (path.plug (.mk d red near x far))) (here : near.top = some y)
    (red' : Bool) :
    Represents (tree.setRed y red') (path.plug (.mk d red (near.recolour red') x far)) :=
  @setRed_plug tree near (⟨d, red, x, far⟩ :: path) y rep here red'

theorem setRed_far {d : Dir} {red : Bool} {near far : Shape Addr} {x y : Addr}
    (rep : Represents tree (path.plug (.mk d red near x far))) (here : far.top = some y)
    (red' : Bool) :
    Represents (tree.setRed y red') (path.plug (.mk d red near x (far.recolour red'))) := by
  rw [plug_far] at rep ⊢
  exact setRed_plug rep here red'

theorem blacken_plug (rep : Represents tree (path.plug shape)) :
    Represents (tree.blacken shape.top) (path.plug (shape.recolour false)) := by
  rw [represents_plug, Shape.top_recolour]
  exact blacken_sub ((represents_plug _ _).mp rep)

/-- The side a node hangs on, as the code finds it out. -/
theorem side_frame {frame : Frame Addr} (rep : Represents tree (Zipper.plug shape (frame :: path)))
    (different : frame.sibling.top ≠ shape.top) :
    (if tree.child .left frame.x = shape.top then Dir.left else Dir.right) = frame.dir := by
  have node := node_frame rep
  obtain ⟨e, red, x, sibling⟩ := frame
  cases e with
  | left => exact if_pos (congrArg RbNode.rbLeft node)
  | right =>
      refine if_neg (fun same => different ?_)
      exact (congrArg RbNode.rbLeft node).symm.trans same

theorem sibling_ne {frame : Frame Addr} {x : Addr}
    (rep : Represents tree (Zipper.plug shape (frame :: path))) (here : shape.top = some x) :
    frame.sibling.top ≠ some x := by
  intro same
  have nodup := (Zipper.elements_plug_perm shape (frame :: path)).nodup_iff.mp rep.nodup
  have beside : x ∈ Zipper.elements (frame :: path) := by
    simp [Zipper.elements, Shape.mem_top same]
  exact (List.nodup_append.mp nodup).2.2 x beside x (Shape.mem_top here) rfl

end Plug

end ApnaOS.Process
