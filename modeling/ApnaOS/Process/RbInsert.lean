import ApnaOS.Process.RbShape

/-!
# Insertion keeps the order and the balance

The loop of `rb_insert_color` carries a red node up the path: everything is
balanced except that the node's parent may be red as well.
-/

set_option autoImplicit false

namespace ApnaOS.Process

open ApnaOS.Lib

variable {tree : RbTree} {t s u : Shape Addr} {x px gx : Addr} {rest : Zipper Addr}

theorem rbLinkNode_spec {path : Zipper Addr} (rep : Represents tree (path.plug .leaf))
    (fresh : x ∉ (path.plug .leaf).elements) :
    Represents (rbLinkNode tree x path.top (linkOf path))
      (path.plug (.node true .leaf x .leaf)) := by
  have separate := (represents_plug _ _).mp rep
  have unowned : some x ∉ owned [sub .leaf path.top, hole path none] := by
    intro member
    have onPath : x ∈ Zipper.elements path := by
      simpa [owned, sub, hole, Shape.elements] using member
    exact fresh ((Zipper.elements_plug_perm _ _).mem_iff.mpr (List.mem_append_left _ onPath))
  have allocated := alloc_cell separate unowned ⟨none, none, path.top, true⟩
  have linked := store_hole (allocated.pick 2 rfl) (some x)
  have kept : Separate _ [cell x ⟨none, none, path.top, true⟩, hole path (some x)] :=
    (linked.pick 2 rfl).tail.pick 1 rfl
  exact (represents_plug _ _).mpr ((unfold_single true x path.top).mpr kept)

theorem insertFixup_red (d e : Dir)
    (rep : Represents tree (rest.plug (.mk d false (.mk e true t px s) gx u)))
    (red : u.isRed = true) :
    ∃ tree', insertFixup d tree x px gx = some (gx, tree') ∧
      Represents tree' (rest.plug (.mk d true (.mk e false t px s) gx (u.recolour false))) := by
  have uncle : tree.child d.other gx = u.top := by
    rw [RbTree.child, node_plug rep, child_other_nodeOf]
  rw [plug_far] at rep
  have uncleRed : tree.isRed u.top = true := (isRed_plug rep).trans red
  have step₁ := blacken_plug rep
  rw [← plug_far] at step₁
  have step₂ : Represents ((tree.blacken u.top).setRed px false)
      (rest.plug (.mk d false (.mk e false t px s) gx (u.recolour false))) := by
    have written := setRed_near step₁ (Shape.top_mk ..) false
    rwa [Shape.recolour_mk] at written
  have step₃ := setRed_plug step₂ (Shape.top_mk ..) true
  rw [Shape.recolour_mk] at step₃
  refine ⟨_, ?_, step₃⟩
  simp only [insertFixup, uncle, uncleRed, if_true]

theorem insertFixup_finish (d : Dir)
    (rep : Represents tree (rest.plug (.mk d false (.mk d true t px s) gx u))) :
    ∃ tree', rotate d.other ((tree.setRed px false).setRed gx true) gx = some tree' ∧
      Represents tree' (rest.plug (.mk d false t px (.mk d true s gx u))) := by
  have step₁ : Represents (tree.setRed px false)
      (rest.plug (.mk d false (.mk d false t px s) gx u)) := by
    have written := setRed_near rep (Shape.top_mk ..) false
    rwa [Shape.recolour_mk] at written
  have step₂ := setRed_plug step₁ (Shape.top_mk ..) true
  rw [Shape.recolour_mk, ← Shape.mk_other, ← Shape.mk_other d false] at step₂
  obtain ⟨tree', ran, rotated⟩ := rotate_spec d.other step₂
  rw [Shape.mk_other, Shape.mk_other] at rotated
  exact ⟨tree', ran, rotated⟩

theorem insertFixup_outer (d : Dir)
    (rep : Represents tree (rest.plug (.mk d false (.mk d true t px s) gx u)))
    (here : t.top = some x) (black : u.isRed = false) :
    ∃ tree', insertFixup d tree x px gx = some (x, tree') ∧
      Represents tree' (rest.plug (.mk d false t px (.mk d true s gx u))) := by
  have uncle : tree.child d.other gx = u.top := by
    rw [RbTree.child, node_plug rep, child_other_nodeOf]
  have atParent : tree.node px = nodeOf d t.top s.top (some gx) true :=
    @node_plug tree (⟨d, false, gx, u⟩ :: rest) d true t s px rep
  have outer : tree.child d.other px ≠ some x := by
    rw [RbTree.child, atParent, child_other_nodeOf]
    exact @sibling_ne tree t (⟨d, false, gx, u⟩ :: rest) ⟨d, true, px, s⟩ x rep here
  have uncleBlack : tree.isRed u.top = false := by
    have far := rep
    rw [plug_far] at far
    exact (isRed_plug far).trans black
  obtain ⟨tree', ran, finished⟩ := insertFixup_finish d rep
  refine ⟨tree', ?_, finished⟩
  simp only [insertFixup, uncle, uncleBlack, Bool.false_eq_true, if_false, if_neg outer,
    Option.bind_eq_bind, Option.bind_some, ran]

theorem insertFixup_inner (d : Dir) {a b : Shape Addr}
    (rep : Represents tree (rest.plug
      (.mk d false (.mk d true s px (.mk d true a x b)) gx u))) (black : u.isRed = false) :
    ∃ tree', insertFixup d tree x px gx = some (px, tree') ∧
      Represents tree' (rest.plug
        (.mk d false (.mk d true s px a) x (.mk d true b gx u))) := by
  have uncle : tree.child d.other gx = u.top := by
    rw [RbTree.child, node_plug rep, child_other_nodeOf]
  have inner : tree.child d.other px = some x := by
    rw [RbTree.child, @node_plug tree (⟨d, false, gx, u⟩ :: rest) d true s _ px rep,
      child_other_nodeOf, Shape.top_mk]
  have uncleBlack : tree.isRed u.top = false := by
    have far := rep
    rw [plug_far] at far
    exact (isRed_plug far).trans black
  obtain ⟨tree₁, ran₁, rotated⟩ :=
    @rotate_spec tree d true true s a b px x (⟨d, false, gx, u⟩ :: rest) rep
  obtain ⟨tree', ran, finished⟩ := insertFixup_finish d rotated
  refine ⟨tree', ?_, finished⟩
  simp only [insertFixup, uncle, uncleBlack, Bool.false_eq_true, if_false, if_pos inner,
    Option.bind_eq_bind, Option.bind_some, ran₁, ran]

/-! ## The loop -/

theorem insertLoop_black {path : Zipper Addr} {frame : Frame Addr}
    (rep : Represents tree (Zipper.plug t (frame :: path))) (here : t.top = some x)
    (colour : frame.red = false) (fuel : Nat) : insertLoop (fuel + 1) tree x = some tree := by
  have parent : tree.parent x = some frame.x := parent_plug rep here
  have black : tree.red frame.x = false := by
    rw [RbTree.red, node_frame rep, rbRed_nodeOf, colour]
  simp only [insertLoop, parent, black, Bool.false_eq_true, if_false]

/-- One iteration below a red parent. -/
theorem insertLoop_step {d e : Dir} (rep : Represents tree
      (rest.plug (.mk d false (.mk e true t px s) gx u))) (here : t.top = some x) (fuel : Nat) :
    insertLoop (fuel + 1) tree x =
      (insertFixup d tree x px gx).bind fun next => insertLoop fuel next.2 next.1 := by
  have parent : tree.parent x = some px :=
    @parent_plug tree t (⟨e, true, px, s⟩ :: ⟨d, false, gx, u⟩ :: rest) x rep here
  have atParent : tree.node px = nodeOf e t.top s.top (some gx) true :=
    @node_plug tree (⟨d, false, gx, u⟩ :: rest) e true t s px rep
  have red : tree.red px = true := by rw [RbTree.red, atParent, rbRed_nodeOf]
  have gparent : tree.parent px = some gx := by rw [RbTree.parent, atParent, rbParent_nodeOf]
  have frame := @side_frame tree (.mk e true t px s) rest ⟨d, false, gx, u⟩ rep
    (by rw [Shape.top_mk]; exact sibling_ne rep (Shape.top_mk ..))
  rw [Shape.top_mk] at frame
  simp only [insertLoop, parent, red, if_true, gparent, Option.bind_eq_bind, Option.bind_some,
    frame]

theorem turned_valid (d : Dir) {n : Nat} (fits : rest.Fits (n + 1)) (t_balanced : t.Balanced n)
    (s_balanced : s.Balanced n) (u_balanced : u.Balanced n) (s_black : s.isRed = false)
    (u_black : u.isRed = false) :
    ((rest.plug (.mk d false t px (.mk d true s gx u))).recolour false).Valid := by
  have lower := (Shape.balanced_mk_red d s gx u n).mpr ⟨s_balanced, u_balanced, s_black, u_black⟩
  have whole := (Shape.balanced_mk_black d t px _ n).mpr ⟨t_balanced, lower⟩
  have valid := fits.valid_plug whole (fun red => by rw [Shape.isRed_mk] at red; cases red)
  rw [Shape.blacken_of_black valid.1]
  exact valid

theorem insertLoop_spec (fuel : Nat) {path : Zipper Addr} {n : Nat}
    (rep : Represents tree (path.plug t)) (here : t.top = some x) (red : t.isRed = true)
    (balanced : t.Balanced n) (fits : path.Fits n) (enough : path.length < fuel) :
    ∃ tree' shape, insertLoop fuel tree x = some tree' ∧ Represents tree' shape ∧
      shape.elements = (path.plug t).elements ∧ (shape.recolour false).Valid := by
  induction fuel generalizing tree t x path n with
  | zero => exact absurd enough (Nat.not_lt_zero _)
  | succ fuel ih =>
      cases fits with
      | nil =>
          have parent : tree.parent x = none := parent_plug rep here
          refine ⟨tree, t, ?_, rep, rfl, Shape.isRed_blacken t, n + 1, balanced.blacken red⟩
          simp only [insertLoop, parent]
      | @black frame above _ colour sibling rest =>
          refine ⟨tree, _, insertLoop_black rep here colour fuel, rep, rfl, ?_⟩
          have valid := (Zipper.Fits.black colour sibling rest).valid_plug balanced
            (fun _ => colour)
          rw [Shape.blacken_of_black valid.1]
          exact valid
      | @red frame next above _ colour sibling sibling_black next_black rest =>
          obtain ⟨e, red', px, s⟩ := frame
          obtain ⟨d, red'', gx, u⟩ := next
          subst colour next_black
          cases rest with
          | red colour => cases colour
          | black _ uncle fits =>
              have rep' : Represents tree
                  (Zipper.plug (.mk d false (.mk e true t px s) gx u) above) := rep
              simp only [List.length_cons] at enough
              have parent_balanced := (Shape.balanced_mk_black e t px s n).mpr ⟨balanced, sibling⟩
              rw [insertLoop_step rep' here]
              cases uncle_red : u.isRed with
              | true =>
                  obtain ⟨tree', ran, recoloured⟩ := insertFixup_red d e rep' uncle_red (x := x)
                  have uncle' := uncle.blacken uncle_red
                  have next_balanced := (Shape.balanced_mk_red d _ gx _ (n + 1)).mpr
                    ⟨parent_balanced, uncle', Shape.isRed_mk .., Shape.isRed_blacken u⟩
                  obtain ⟨tree'', shape, ran', represents, same, valid⟩ := ih recoloured
                    (Shape.top_mk ..) (Shape.isRed_mk ..) next_balanced fits (by omega)
                  refine ⟨tree'', shape, by rw [ran]; exact ran', represents, ?_, valid⟩
                  rw [same]
                  apply Zipper.elements_plug_congr
                  exact Shape.elements_mk_congr d _ _ gx
                    (Shape.elements_mk_congr e _ _ px rfl rfl) (Shape.elements_recolour false u)
              | false =>
                  obtain ⟨m, rfl⟩ : ∃ m, fuel = m + 1 := ⟨fuel - 1, by omega⟩
                  rcases Dir.eq_or_other d e with same | opposite
                  · subst same
                    obtain ⟨tree', ran, rotated⟩ := insertFixup_outer e rep' here uncle_red
                    refine ⟨tree', _, ?_, rotated, ?_, ?_⟩
                    · rw [ran]
                      exact @insertLoop_black tree' t x above
                        ⟨e, false, px, .mk e true s gx u⟩ rotated here rfl m
                    · apply Zipper.elements_plug_congr
                      exact (Shape.elements_rotate ..).symm
                    · exact turned_valid e fits balanced sibling uncle sibling_black uncle_red
                  · subst opposite
                    obtain ⟨a, y, b, rfl⟩ := Shape.exists_mk_of_red red d
                    cases (Shape.top_mk d true a y b).symm.trans here
                    obtain ⟨a_balanced, b_balanced, a_black, b_black⟩ :=
                      (Shape.balanced_mk_red d a x b n).mp balanced
                    have inward := rep'
                    rw [Shape.mk_other] at inward
                    obtain ⟨tree', ran, rotated⟩ := insertFixup_inner d inward uncle_red
                    have outward := (Shape.balanced_mk_red d s px a n).mpr
                      ⟨sibling, a_balanced, sibling_black, a_black⟩
                    refine ⟨tree', _, ?_, rotated, ?_, ?_⟩
                    · rw [ran]
                      exact @insertLoop_black tree' (.mk d true s px a) px above
                        ⟨d, false, x, .mk d true b gx u⟩ rotated (Shape.top_mk ..) rfl m
                    · apply Zipper.elements_plug_congr
                      rw [Frame.attach, Frame.attach, Shape.mk_other]
                      calc (Shape.mk d false (.mk d true s px a) x (.mk d true b gx u)).elements
                          = (Shape.mk d false (.mk d true (.mk d true s px a) x b) gx u).elements :=
                            (Shape.elements_rotate ..).symm
                        _ = (Shape.mk d false (.mk d true s px (.mk d true a x b)) gx u).elements :=
                            Shape.elements_mk_congr d _ _ gx (Shape.elements_rotate ..) rfl
                    · exact turned_valid d fits outward b_balanced uncle b_black uncle_red

theorem rbInsertColor_spec (fuel : Nat) {path : Zipper Addr} {n : Nat}
    (rep : Represents tree (path.plug t)) (here : t.top = some x) (red : t.isRed = true)
    (balanced : t.Balanced n) (fits : path.Fits n) (enough : path.length < fuel) :
    ∃ tree' shape, rbInsertColor fuel tree x = some tree' ∧ Represents tree' shape ∧
      shape.elements = (path.plug t).elements ∧ shape.Valid := by
  obtain ⟨tree', shape, ran, represents, same, valid⟩ :=
    insertLoop_spec fuel rep here red balanced fits enough
  have member : x ∈ shape.elements := by
    rw [same, Zipper.elements_plug]
    simp [Shape.mem_top here]
  cases shape with
  | leaf => exact absurd member List.not_mem_nil
  | node red left y right =>
      have root : tree'.root = some y := represents.root
      have blackened := @setRed_plug tree' (.node red left y right) [] y represents rfl false
      refine ⟨_, _, ?_, blackened, same, valid⟩
      simp only [rbInsertColor, ran, root, Option.bind_eq_bind, Option.bind_some]

/-! ## Linking at any empty position -/

/-- A run that ends takes no notice of further iterations it might make. -/
theorem insertLoop_mono {fuel more : Nat} (le : fuel ≤ more) {tree tree' : RbTree} {node : Addr}
    (ran : insertLoop fuel tree node = some tree') : insertLoop more tree node = some tree' := by
  induction fuel generalizing more tree node with
  | zero => cases ran
  | succ fuel ih =>
      obtain ⟨more, rfl⟩ : ∃ m, more = m + 1 := ⟨more - 1, by omega⟩
      simp only [insertLoop] at ran ⊢
      cases up : tree.parent node with
      | none => simpa only [up] using ran
      | some parent =>
          simp only [up] at ran ⊢
          split
          · rename_i red
            simp only [red, if_true, Option.bind_eq_bind, Option.bind_eq_some_iff] at ran ⊢
            obtain ⟨gparent, above, ⟨next, fixed⟩, turned, rest⟩ := ran
            exact ⟨gparent, above, (next, fixed), turned, ih (by omega) rest⟩
          · rename_i black
            simpa only [black, if_false, Bool.false_eq_true] using ran

theorem rbInsertColor_mono {fuel more : Nat} (le : fuel ≤ more) {tree tree' : RbTree}
    {node : Addr} (ran : rbInsertColor fuel tree node = some tree') :
    rbInsertColor more tree node = some tree' := by
  simp only [rbInsertColor, Option.bind_eq_bind, Option.bind_eq_some_iff] at ran ⊢
  obtain ⟨fixed, looped, rest⟩ := ran
  exact ⟨fixed, insertLoop_mono le looped, rest⟩

/-- The arguments of `rb_link_node` for a place that is free: the root pointer of an
empty tree, or a NULL child pointer of a node of the tree. -/
def EmptyPosition (tree : RbTree) (shape : Shape Addr) : Option Addr → Link → Prop
  | none, .root => tree.root = none
  | some parent, .child d a => a = parent ∧ a ∈ shape.elements ∧ tree.child d a = none
  | _, _ => False

/-- Where a child position lies in the order: a left child comes right before its
parent and a right child right behind it. -/
def LiesBetween : Link → List Addr → List Addr → Prop
  | .root, low, high => low = [] ∧ high = []
  | .child .left a, _, high => high.head? = some a
  | .child .right a, low, _ => low.getLast? = some a

theorem EmptyPosition.exists_path {shape : Shape Addr} {parent : Option Addr} {link : Link}
    (position : EmptyPosition tree shape parent link) (rep : Represents tree shape) :
    ∃ path : Zipper Addr, path.plug .leaf = shape ∧ path.top = parent ∧ linkOf path = link ∧
      LiesBetween link path.before path.after := by
  match parent, link, position with
  | none, .root, empty =>
      have nothing : shape.top = none := rep.root.symm.trans empty
      cases shape with
      | leaf => exact ⟨[], rfl, rfl, rfl, rfl, rfl⟩
      | node red left y right => cases nothing
  | some _, .child d a, ⟨rfl, member, empty⟩ =>
      obtain ⟨path, red, left, right, whole⟩ := Zipper.exists_plug member []
      rw [Zipper.plug] at whole
      subst whole
      have here := node_plug (d := .left) rep
      cases d with
      | left =>
          have none_there : left.top = none := by
            rw [← empty, RbTree.child, here]
            rfl
          cases left with
          | leaf =>
              refine ⟨⟨.left, red, a, right⟩ :: path, rfl, rfl, rfl, ?_⟩
              simp [LiesBetween, Zipper.after]
          | node _ _ _ _ => cases none_there
      | right =>
          have none_there : right.top = none := by
            rw [← empty, RbTree.child, here]
            rfl
          cases right with
          | leaf =>
              refine ⟨⟨.right, red, a, left⟩ :: path, rfl, rfl, rfl, ?_⟩
              simp [LiesBetween, Zipper.before]
          | node _ _ _ _ => cases none_there

/-- Linking a fresh node at an empty position and calling `rb_insert_color` ends with a
valid tree that holds the new node at that position of the order. -/
theorem rb_insert_correct (tree : RbTree) (shape : Shape Addr) (x : Addr) (parent : Option Addr)
    (link : Link) (rep : Represents tree shape) (valid : shape.Valid)
    (fresh : x ∉ shape.elements) (position : EmptyPosition tree shape parent link) :
    ∃ (tree' : RbTree) (shape' : Shape Addr) (low high : List Addr),
      (∀ fuel, shape.elements.length < fuel →
        rbInsertColor fuel (rbLinkNode tree x parent link) x = some tree') ∧
      Represents tree' shape' ∧ shape'.Valid ∧ shape.elements = low ++ high ∧
      shape'.elements = low ++ x :: high ∧ LiesBetween link low high := by
  obtain ⟨path, rfl, rfl, rfl, between⟩ := position.exists_path rep
  have linked := rbLinkNode_spec rep fresh
  obtain ⟨n, leaf_balanced, fits, _⟩ := Zipper.exists_fits valid
  cases leaf_balanced
  have room := Zipper.length_le .leaf path
  obtain ⟨tree', shape', ran, rep', same, valid'⟩ :=
    rbInsertColor_spec ((path.plug .leaf).elements.length + 1) linked rfl rfl
      (.red .leaf .leaf rfl rfl) fits (by omega)
  refine ⟨tree', shape', path.before, path.after, ?_, rep', valid', ?_, ?_, between⟩
  · intro fuel enough
    exact rbInsertColor_mono enough ran
  · simp [Zipper.elements_plug, Shape.elements]
  · simp [same, Zipper.elements_plug, Shape.elements]

/-- Below 30 a node has a red parent and a red uncle, and two levels up 20 has a red parent and
the black uncle 90. -/
def sevenNodes : Shape Addr :=
  .node false
    (.node true
      (.node false (.node true .leaf 10 .leaf) 20 (.node true .leaf 30 .leaf)) 40
      (.node false .leaf 60 .leaf)) 80
    (.node false .leaf 90 .leaf)

theorem sevenNodes_valid : sevenNodes.Valid :=
  ⟨rfl, 2, .black
    (.red (.black (.red .leaf .leaf rfl rfl) (.red .leaf .leaf rfl rfl)) (.black .leaf .leaf)
      rfl rfl)
    (.black .leaf .leaf)⟩

theorem rb_insert_correct_below_red :
    ∃ (tree' : RbTree) (shape' : Shape Addr) (low high : List Addr),
      (∀ fuel, 7 < fuel → rbInsertColor fuel
        (rbLinkNode (treeOf sevenNodes) 25 (some 30) (.child .left 30)) 25 = some tree') ∧
      Represents tree' shape' ∧ shape'.Valid ∧ sevenNodes.elements = low ++ high ∧
      shape'.elements = low ++ 25 :: high ∧ LiesBetween (.child .left 30) low high :=
  rb_insert_correct (treeOf sevenNodes) sevenNodes 25 (some 30) (.child .left 30)
    (represents_treeOf (by decide)) sevenNodes_valid (by decide) ⟨rfl, by decide, by decide⟩

end ApnaOS.Process
