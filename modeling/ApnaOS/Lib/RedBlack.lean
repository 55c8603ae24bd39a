import Mathlib.Data.List.Basic

/-!
# Red-black trees with a hole

Trees, the path of frames above a subtree, and the balance of a subtree and of a
path taken apart: a path asks a certain black height of whatever black tree is
put in its hole.  A direction says on which side something hangs, so that each
mirrored pair of facts is one fact.
-/

set_option autoImplicit false

namespace ApnaOS.Lib

universe u

inductive Dir where
  | left
  | right
  deriving DecidableEq

def Dir.other : Dir → Dir
  | .left => .right
  | .right => .left

@[simp] theorem Dir.other_other (d : Dir) : d.other.other = d := by cases d <;> rfl

@[simp] theorem Dir.other_ne (d : Dir) : d.other ≠ d := by cases d <;> decide

theorem Dir.eq_or_other (d e : Dir) : e = d ∨ e = d.other := by cases d <;> cases e <;> decide

inductive Shape (α : Type u) where
  | leaf
  | node (red : Bool) (left : Shape α) (x : α) (right : Shape α)

namespace Shape

variable {α : Type u}

def elements : Shape α → List α
  | leaf => []
  | node _ left x right => left.elements ++ x :: right.elements

def top : Shape α → Option α
  | leaf => none
  | node _ _ x _ => some x

def isRed : Shape α → Bool
  | leaf => false
  | node red _ _ _ => red

def recolour (red : Bool) : Shape α → Shape α
  | leaf => leaf
  | node _ left x right => node red left x right

/-- A node whose `d` child is `near`. -/
def mk (d : Dir) (red : Bool) (near : Shape α) (x : α) (far : Shape α) : Shape α :=
  match d with
  | .left => node red near x far
  | .right => node red far x near

theorem mk_other (d : Dir) (red : Bool) (near : Shape α) (x : α) (far : Shape α) :
    mk d.other red near x far = mk d red far x near := by cases d <;> rfl

@[simp] theorem top_mk (d : Dir) (red : Bool) (near : Shape α) (x : α) (far : Shape α) :
    (mk d red near x far).top = some x := by cases d <;> rfl

@[simp] theorem isRed_mk (d : Dir) (red : Bool) (near : Shape α) (x : α) (far : Shape α) :
    (mk d red near x far).isRed = red := by cases d <;> rfl

@[simp] theorem recolour_mk (colour : Bool) (d : Dir) (red : Bool) (near : Shape α) (x : α)
    (far : Shape α) : (mk d red near x far).recolour colour = mk d colour near x far := by
  cases d <;> rfl

@[simp] theorem elements_recolour (colour : Bool) (tree : Shape α) :
    (tree.recolour colour).elements = tree.elements := by cases tree <;> rfl

@[simp] theorem top_recolour (colour : Bool) (tree : Shape α) :
    (tree.recolour colour).top = tree.top := by cases tree <;> rfl

@[simp] theorem isRed_blacken (tree : Shape α) : (tree.recolour false).isRed = false := by
  cases tree <;> rfl

theorem blacken_of_black {tree : Shape α} (black : tree.isRed = false) :
    tree.recolour false = tree := by
  cases tree with
  | leaf => rfl
  | node red left x right =>
      cases red with
      | false => rfl
      | true => cases black

theorem mem_top {tree : Shape α} {x : α} (here : tree.top = some x) : x ∈ tree.elements := by
  cases tree with
  | leaf => cases here
  | node red left y right =>
      cases here
      simp [elements]

theorem elements_mk_perm (d : Dir) (red : Bool) (near : Shape α) (x : α) (far : Shape α) :
    (mk d red near x far).elements.Perm (x :: (near.elements ++ far.elements)) := by
  cases d with
  | left => exact List.perm_middle
  | right =>
      apply List.perm_middle.trans
      exact List.Perm.cons x List.perm_append_comm

theorem elements_rotate (d : Dir) (c₁ c₂ c₃ c₄ : Bool) (a : Shape α) (x : α) (b : Shape α) (y : α)
    (c : Shape α) :
    (mk d c₂ (mk d c₁ a x b) y c).elements = (mk d c₄ a x (mk d c₃ b y c)).elements := by
  cases d <;> simp [mk, elements]

theorem elements_mk_congr (d : Dir) (red red' : Bool) {near near' far far' : Shape α} (x : α)
    (same : near.elements = near'.elements) (same' : far.elements = far'.elements) :
    (mk d red near x far).elements = (mk d red' near' x far').elements := by
  cases d <;> simp [mk, elements, same, same']

/-! ## Balance -/

/-- Every path down passes `n` black nodes, and no red node has a red child. -/
inductive Balanced : Shape α → Nat → Prop where
  | leaf : Balanced leaf 0
  | red {left right : Shape α} {x : α} {n : Nat} (balanced : Balanced left n)
      (balanced' : Balanced right n) (black : left.isRed = false) (black' : right.isRed = false) :
      Balanced (node true left x right) n
  | black {left right : Shape α} {x : α} {n : Nat} (balanced : Balanced left n)
      (balanced' : Balanced right n) : Balanced (node false left x right) (n + 1)

def Valid (tree : Shape α) : Prop := tree.isRed = false ∧ ∃ n, Balanced tree n

theorem balanced_mk_red (d : Dir) (near : Shape α) (x : α) (far : Shape α) (n : Nat) :
    Balanced (mk d true near x far) n ↔
      Balanced near n ∧ Balanced far n ∧ near.isRed = false ∧ far.isRed = false := by
  cases d with
  | left =>
      constructor
      · intro balanced
        cases balanced with
        | red h h' b b' => exact ⟨h, h', b, b'⟩
      · intro parts
        exact .red parts.1 parts.2.1 parts.2.2.1 parts.2.2.2
  | right =>
      constructor
      · intro balanced
        cases balanced with
        | red h h' b b' => exact ⟨h', h, b', b⟩
      · intro parts
        exact .red parts.2.1 parts.1 parts.2.2.2 parts.2.2.1

theorem balanced_mk_black (d : Dir) (near : Shape α) (x : α) (far : Shape α) (n : Nat) :
    Balanced (mk d false near x far) (n + 1) ↔ Balanced near n ∧ Balanced far n := by
  cases d with
  | left =>
      constructor
      · intro balanced
        cases balanced with
        | black h h' => exact ⟨h, h'⟩
      · intro parts
        exact .black parts.1 parts.2
  | right =>
      constructor
      · intro balanced
        cases balanced with
        | black h h' => exact ⟨h', h⟩
      · intro parts
        exact .black parts.2 parts.1

theorem balanced_mk_zero (d : Dir) (near : Shape α) (x : α) (far : Shape α) :
    ¬ Balanced (mk d false near x far) 0 := by
  intro balanced
  cases d <;> cases balanced

theorem exists_mk_of_red {tree : Shape α} (red : tree.isRed = true) (d : Dir) :
    ∃ near x far, tree = mk d true near x far := by
  cases tree with
  | leaf => cases red
  | node red' left x right =>
      cases red
      cases d with
      | left => exact ⟨left, x, right, rfl⟩
      | right => exact ⟨right, x, left, rfl⟩

theorem exists_mk_of_height {tree : Shape α} {n : Nat} (balanced : Balanced tree (n + 1))
    (d : Dir) : ∃ red near x far, tree = mk d red near x far := by
  cases tree with
  | leaf => cases balanced
  | node red left x right =>
      cases d with
      | left => exact ⟨red, left, x, right, rfl⟩
      | right => exact ⟨red, right, x, left, rfl⟩

theorem Balanced.blacken {tree : Shape α} {n : Nat} (balanced : Balanced tree n)
    (red : tree.isRed = true) : Balanced (tree.recolour false) (n + 1) := by
  cases balanced with
  | leaf => cases red
  | red h h' _ _ => exact .black h h'
  | black _ _ => cases red

end Shape

/-! ## Paths -/

/-- A node above a subtree: the side the subtree hangs on, and everything else. -/
structure Frame (α : Type u) where
  dir : Dir
  red : Bool
  x : α
  sibling : Shape α

namespace Frame

variable {α : Type u}

def attach (frame : Frame α) (tree : Shape α) : Shape α :=
  Shape.mk frame.dir frame.red tree frame.x frame.sibling

end Frame

/-- The nodes above a subtree, the nearest first. -/
abbrev Zipper (α : Type u) := List (Frame α)

namespace Zipper

variable {α : Type u}

def plug (tree : Shape α) : Zipper α → Shape α
  | [] => tree
  | frame :: above => plug (frame.attach tree) above

def top : Zipper α → Option α
  | [] => none
  | frame :: _ => some frame.x

/-- The elements of the nodes on the path and of the subtrees beside it. -/
def elements : Zipper α → List α
  | [] => []
  | frame :: above => frame.x :: (frame.sibling.elements ++ elements above)

def before : Zipper α → List α
  | [] => []
  | frame :: above =>
      match frame.dir with
      | .left => before above
      | .right => before above ++ (frame.sibling.elements ++ [frame.x])

def after : Zipper α → List α
  | [] => []
  | frame :: above =>
      match frame.dir with
      | .left => frame.x :: frame.sibling.elements ++ after above
      | .right => after above

@[simp] theorem top_cons (frame : Frame α) (above : Zipper α) :
    top (frame :: above) = some frame.x := rfl

theorem plug_append (tree : Shape α) (below above : Zipper α) :
    plug tree (below ++ above) = plug (plug tree below) above := by
  induction below generalizing tree with
  | nil => rfl
  | cons frame below ih => exact ih (frame.attach tree)

theorem elements_plug (tree : Shape α) (path : Zipper α) :
    (plug tree path).elements = before path ++ tree.elements ++ after path := by
  induction path generalizing tree with
  | nil => simp [plug, before, after]
  | cons frame above ih =>
      obtain ⟨d, red, x, sibling⟩ := frame
      rw [plug, ih]
      cases d <;> simp [Frame.attach, Shape.mk, before, after, Shape.elements]

theorem elements_plug_congr {tree tree' : Shape α} (same : tree.elements = tree'.elements)
    (path : Zipper α) : (plug tree path).elements = (plug tree' path).elements := by
  rw [elements_plug, elements_plug, same]

theorem elements_plug_perm (tree : Shape α) (path : Zipper α) :
    (plug tree path).elements.Perm (elements path ++ tree.elements) := by
  induction path generalizing tree with
  | nil => exact List.Perm.refl _
  | cons frame above ih =>
      apply (ih _).trans
      apply ((Shape.elements_mk_perm _ _ _ _ _).append_left _).trans
      simp only [elements, List.cons_append]
      refine List.perm_middle.trans (List.Perm.cons _ ?_)
      apply List.perm_append_comm.trans
      apply (List.perm_append_comm.append_right _).trans
      rw [List.append_assoc, List.append_assoc]
      exact List.Perm.append_left _ List.perm_append_comm

theorem length_le (tree : Shape α) (path : Zipper α) :
    path.length + tree.elements.length ≤ (plug tree path).elements.length := by
  rw [(elements_plug_perm tree path).length_eq, List.length_append]
  refine Nat.add_le_add_right ?_ _
  induction path with
  | nil => exact Nat.le_refl 0
  | cons frame above ih =>
      simp only [elements, List.length_cons, List.length_append]
      omega

theorem exists_plug {tree : Shape α} {x : α} (member : x ∈ tree.elements) (above : Zipper α) :
    ∃ (path : Zipper α) (red : Bool) (left right : Shape α),
      plug tree above = plug (.node red left x right) path := by
  induction tree generalizing above with
  | leaf => exact absurd member List.not_mem_nil
  | node red left y right ihl ihr =>
      rw [Shape.elements, List.mem_append, List.mem_cons] at member
      rcases member with lower | rfl | higher
      · exact ihl lower (⟨.left, red, y, right⟩ :: above)
      · exact ⟨above, red, left, right, rfl⟩
      · exact ihr higher (⟨.right, red, y, left⟩ :: above)

theorem before_of_left {path : Zipper α} (turns : ∀ frame ∈ path, frame.dir = .left) :
    before path = [] := by
  induction path with
  | nil => rfl
  | cons frame above ih =>
      have turn := turns frame List.mem_cons_self
      simp only [before, turn]
      exact ih fun next member => turns next (List.mem_cons_of_mem frame member)

/-- A black tree of black height `n` may be put in the hole. -/
inductive Fits : Zipper α → Nat → Prop where
  | nil (n : Nat) : Fits [] n
  | black {frame : Frame α} {above : Zipper α} {n : Nat} (colour : frame.red = false)
      (balanced : frame.sibling.Balanced n) (rest : Fits above (n + 1)) :
      Fits (frame :: above) n
  | red {frame next : Frame α} {above : Zipper α} {n : Nat} (colour : frame.red = true)
      (balanced : frame.sibling.Balanced n) (black : frame.sibling.isRed = false)
      (colour' : next.red = false) (rest : Fits (next :: above) n) :
      Fits (frame :: next :: above) n

def TakesRed : Zipper α → Prop
  | [] => False
  | frame :: _ => frame.red = false

theorem Fits.reframe {d : Dir} {red : Bool} {x y : α} {s s' : Shape α} {above : Zipper α} {n : Nat}
    (fits : Fits (⟨d, red, x, s⟩ :: above) n) (balanced : s'.Balanced n)
    (black : s'.isRed = false) : Fits (⟨d, red, y, s'⟩ :: above) n := by
  cases fits with
  | black colour _ rest => exact .black colour balanced rest
  | red colour _ _ colour' rest => exact .red colour balanced black colour' rest

theorem Fits.rename {d : Dir} {red : Bool} {x : α} (y : α) {s : Shape α} {below above : Zipper α}
    {n : Nat} (fits : Fits (below ++ ⟨d, red, x, s⟩ :: above) n) :
    Fits (below ++ ⟨d, red, y, s⟩ :: above) n := by
  induction below generalizing n with
  | nil =>
      cases fits with
      | black colour balanced rest => exact .black colour balanced rest
      | red colour balanced black colour' rest => exact .red colour balanced black colour' rest
  | cons frame below ih =>
      cases below with
      | nil =>
          cases fits with
          | black colour balanced rest => exact .black colour balanced (ih rest)
          | red colour balanced black colour' rest =>
              exact .red colour balanced black colour' (ih rest)
      | cons next below =>
          cases fits with
          | black colour balanced rest => exact .black colour balanced (ih rest)
          | red colour balanced black colour' rest =>
              exact .red colour balanced black colour' (ih rest)

theorem Fits.valid_plug {path : Zipper α} {n : Nat} (fits : Fits path n) {tree : Shape α}
    (balanced : tree.Balanced n) (colour : tree.isRed = true → TakesRed path) :
    (plug tree path).Valid := by
  induction fits generalizing tree with
  | nil n =>
      refine ⟨?_, n, balanced⟩
      cases red : tree.isRed with
      | false => exact red
      | true => exact (colour red).elim
  | @black frame above n black sibling rest ih =>
      have whole : (frame.attach tree).Balanced (n + 1) := by
        rw [Frame.attach, black, Shape.balanced_mk_black]
        exact ⟨balanced, sibling⟩
      refine ih whole (fun red => ?_)
      rw [Frame.attach, Shape.isRed_mk, black] at red
      cases red
  | @red frame next above n red sibling sibling_black next_black rest ih =>
      have black : tree.isRed = false := by
        cases colour' : tree.isRed with
        | false => rfl
        | true =>
            have frame_black : frame.red = false := colour colour'
            rw [red] at frame_black
            cases frame_black
      have whole : (frame.attach tree).Balanced n := by
        rw [Frame.attach, red, Shape.balanced_mk_red]
        exact ⟨balanced, sibling, black, sibling_black⟩
      exact ih whole (fun _ => next_black)

/-- What a valid tree says about a subtree and the path to it. -/
theorem exists_fits {tree : Shape α} {path : Zipper α} (valid : (plug tree path).Valid) :
    ∃ n, tree.Balanced n ∧ Fits path n ∧ (tree.isRed = true → TakesRed path) := by
  induction path generalizing tree with
  | nil =>
      obtain ⟨black, n, balanced⟩ := valid
      refine ⟨n, balanced, .nil n, fun red => ?_⟩
      rw [plug, red] at black
      cases black
  | cons frame above ih =>
      obtain ⟨n, balanced, fits, colour⟩ := ih valid
      cases red : frame.red with
      | false =>
          rw [Frame.attach, red] at balanced
          cases n with
          | zero => exact (Shape.balanced_mk_zero _ _ _ _ balanced).elim
          | succ n =>
              obtain ⟨here, sibling⟩ := (Shape.balanced_mk_black _ _ _ _ _).mp balanced
              exact ⟨n, here, .black red sibling fits, fun _ => red⟩
      | true =>
          rw [Frame.attach, red] at balanced colour
          obtain ⟨here, sibling, black, sibling_black⟩ :=
            (Shape.balanced_mk_red _ _ _ _ _).mp balanced
          cases above with
          | nil => exact (colour (Shape.isRed_mk _ _ _ _ _)).elim
          | cons next above =>
              refine ⟨n, here, .red red sibling sibling_black (colour (Shape.isRed_mk _ _ _ _ _))
                fits, fun red' => ?_⟩
              rw [black] at red'
              cases red'

end Zipper

end ApnaOS.Lib
