import Mathlib.Logic.Function.Basic
import ApnaOS.Lib.RedBlack

/-!
# rbtree.c

The intrusive tree as it lies in memory: a node record per address and the root
pointer.  A function gives `none` where the code would read or write through a
NULL pointer.  The code repeats each branch with left and right exchanged; a
direction stands for the two copies.  Loops take the number of iterations they
may make.
-/

set_option autoImplicit false

namespace ApnaOS.Process

open ApnaOS.Lib
open Function (update)

abbrev Addr := Nat

structure RbNode where
  rbLeft : Option Addr
  rbRight : Option Addr
  rbParent : Option Addr
  rbRed : Bool

def RbNode.child (node : RbNode) : Dir → Option Addr
  | .left => node.rbLeft
  | .right => node.rbRight

def RbNode.setChild (node : RbNode) : Dir → Option Addr → RbNode
  | .left, child => { node with rbLeft := child }
  | .right, child => { node with rbRight := child }

def RbNode.setParent (node : RbNode) (parent : Option Addr) : RbNode :=
  { node with rbParent := parent }

def RbNode.setRed (node : RbNode) (red : Bool) : RbNode := { node with rbRed := red }

structure RbTree where
  node : Addr → RbNode
  root : Option Addr

namespace RbTree

def setNode (tree : RbTree) (a : Addr) (node : RbNode) : RbTree :=
  { tree with node := update tree.node a node }

def child (tree : RbTree) (d : Dir) (a : Addr) : Option Addr := (tree.node a).child d
def parent (tree : RbTree) (a : Addr) : Option Addr := (tree.node a).rbParent
def red (tree : RbTree) (a : Addr) : Bool := (tree.node a).rbRed

def setChild (tree : RbTree) (d : Dir) (a : Addr) (child : Option Addr) : RbTree :=
  tree.setNode a ((tree.node a).setChild d child)
def setParent (tree : RbTree) (a : Addr) (parent : Option Addr) : RbTree :=
  tree.setNode a ((tree.node a).setParent parent)
def setRed (tree : RbTree) (a : Addr) (red : Bool) : RbTree :=
  tree.setNode a ((tree.node a).setRed red)

/-- The test `p && p->rb_red`. -/
def isRed (tree : RbTree) : Option Addr → Bool
  | none => false
  | some a => tree.red a

/-- `if (p) p->rb_parent = parent;` -/
def adopt (tree : RbTree) (parent : Option Addr) : Option Addr → RbTree
  | none => tree
  | some a => tree.setParent a parent

/-- `if (p) p->rb_red = false;` -/
def blacken (tree : RbTree) : Option Addr → RbTree
  | none => tree
  | some a => tree.setRed a false

/-- What pointed to `old` points to `new`: the child of `parent` that is `old`,
tried on side `d` first, or the root. -/
def relink (tree : RbTree) (d : Dir) (parent : Option Addr) (old : Addr) (new : Option Addr) :
    RbTree :=
  match parent with
  | some p =>
      if tree.child d p = some old then tree.setChild d p new else tree.setChild d.other p new
  | none => { tree with root := new }

end RbTree

/-- `rb_rotate_left` (`d` left) and `rb_rotate_right` (`d` right): the child on the
other side takes the node's place and the node becomes its `d` child. -/
def rotate (d : Dir) (tree : RbTree) (node : Addr) : Option RbTree := do
  let up ← tree.child d.other node
  let parent := tree.parent node
  let inner := tree.child d up
  let tree := tree.setChild d.other node inner
  let tree := tree.adopt (some node) inner
  let tree := tree.setChild d up (some node)
  let tree := tree.setParent node (some up)
  let tree := tree.setParent up parent
  some (tree.relink d parent node (some up))

def rbRotateLeft (tree : RbTree) (node : Addr) : Option RbTree := rotate .left tree node
def rbRotateRight (tree : RbTree) (node : Addr) : Option RbTree := rotate .right tree node

/-! ## Insertion -/

/-- The body of the loop of `rb_insert_color` when `parent` is the `d` child of
`gparent`: the next `node` and the tree. -/
def insertFixup (d : Dir) (tree : RbTree) (node parent gparent : Addr) :
    Option (Addr × RbTree) :=
  let uncle := tree.child d.other gparent
  if tree.isRed uncle then
    let tree := tree.blacken uncle
    let tree := tree.setRed parent false
    let tree := tree.setRed gparent true
    some (gparent, tree)
  else do
    let (node, parent, tree) ←
      if tree.child d.other parent = some node then do
        let tree ← rotate d tree parent
        some (parent, node, tree)
      else some (node, parent, tree)
    let tree := tree.setRed parent false
    let tree := tree.setRed gparent true
    let tree ← rotate d.other tree gparent
    some (node, tree)

def insertLoop : Nat → RbTree → Addr → Option RbTree
  | 0, _, _ => none
  | fuel + 1, tree, node =>
      match tree.parent node with
      | some parent =>
          if tree.red parent then do
            let gparent ← tree.parent parent
            let d := if tree.child .left gparent = some parent then Dir.left else Dir.right
            let (node, tree) ← insertFixup d tree node parent gparent
            insertLoop fuel tree node
          else some tree
      | none => some tree

def rbInsertColor (fuel : Nat) (tree : RbTree) (node : Addr) : Option RbTree := do
  let tree ← insertLoop fuel tree node
  let root ← tree.root
  some (tree.setRed root false)

/-- Where a `struct rb_node **` points: at the root pointer or at a child pointer. -/
inductive Link where
  | root
  | child (d : Dir) (a : Addr)

def RbTree.load (tree : RbTree) : Link → Option Addr
  | .root => tree.root
  | .child d a => tree.child d a

def RbTree.store (tree : RbTree) : Link → Option Addr → RbTree
  | .root, p => { tree with root := p }
  | .child d a, p => tree.setChild d a p

def rbLinkNode (tree : RbTree) (node : Addr) (parent : Option Addr) (link : Link) : RbTree :=
  let tree := tree.setNode node ⟨none, none, parent, true⟩
  tree.store link (some node)

/-- The loop of `rb_first` and of the successor search in `rb_erase`. -/
def leftmost : Nat → RbTree → Addr → Option Addr
  | 0, _, _ => none
  | fuel + 1, tree, n =>
      match tree.child .left n with
      | some left => leftmost fuel tree left
      | none => some n

def rbFirst (fuel : Nat) (tree : RbTree) : Option (Option Addr) :=
  match tree.root with
  | none => some none
  | some n => (leftmost fuel tree n).map some

/-! ## Removal -/

/-- What the first part of `rb_erase` leaves in its variables. -/
structure Removed where
  child : Option Addr
  parent : Option Addr
  red : Bool
  tree : RbTree

/-- The case of at most one child: `child` takes the node's place. -/
def removeSingle (tree : RbTree) (node : Addr) (child : Option Addr) : Removed :=
  let parent := tree.parent node
  let red := tree.red node
  let tree := tree.adopt parent child
  let tree := tree.relink .left parent node child
  ⟨child, parent, red, tree⟩

def takePlace (tree : RbTree) (old node : Addr) : Option RbTree := do
  let tree := tree.setParent node (tree.parent old)
  let tree := tree.setRed node (tree.red old)
  let tree := tree.setChild .left node (tree.child .left old)
  let oldLeft ← tree.child .left old
  some (tree.setParent oldLeft (some node))

/-- The successor `node` leaves its place to `child` and takes over the right
subtree of `old`. -/
def detachSuccessor (tree : RbTree) (old node parent : Addr) (child : Option Addr) :
    Option RbTree := do
  let tree := tree.adopt (some parent) child
  let tree := tree.setChild .left parent child
  let tree := tree.setChild .right node (tree.child .right old)
  let oldRight ← tree.child .right old
  some (tree.setParent oldRight (some node))

/-- The case of two children: the leftmost node of the right subtree takes the
place of the old one. -/
def removeDouble (fuel : Nat) (tree : RbTree) (old right : Addr) : Option Removed := do
  let node ← leftmost fuel tree right
  let tree := tree.relink .left (tree.parent old) old (some node)
  let child := tree.child .right node
  let parent ← tree.parent node
  let red := tree.red node
  let (parent, tree) ←
    if parent = old then some (node, tree)
    else do
      let tree ← detachSuccessor tree old node parent child
      some (parent, tree)
  let tree ← takePlace tree old node
  some ⟨child, some parent, red, tree⟩

def remove (fuel : Nat) (tree : RbTree) (node : Addr) : Option Removed :=
  match tree.child .left node, tree.child .right node with
  | none, right => some (removeSingle tree node right)
  | left, none => some (removeSingle tree node left)
  | some _, some right => removeDouble fuel tree node right

/-- The start of an iteration when `child` is the `d` child of `parent`: the
sibling, which is black afterwards. -/
def eraseSibling (d : Dir) (tree : RbTree) (parent : Addr) : Option (Addr × RbTree) := do
  let sibling ← tree.child d.other parent
  if tree.red sibling then
    let tree := tree.setRed sibling false
    let tree := tree.setRed parent true
    let tree ← rotate d tree parent
    let sibling ← tree.child d.other parent
    some (sibling, tree)
  else some (sibling, tree)

def eraseTurn (d : Dir) (tree : RbTree) (parent sibling : Addr) : Option (Addr × RbTree) :=
  if !tree.isRed (tree.child d.other sibling) then do
    let tree := tree.blacken (tree.child d sibling)
    let tree := tree.setRed sibling true
    let tree ← rotate d.other tree sibling
    let sibling ← tree.child d.other parent
    some (sibling, tree)
  else some (sibling, tree)

/-- The rest of an iteration: the next `child` and `parent` and the tree. -/
def eraseRefill (d : Dir) (tree : RbTree) (parent sibling : Addr) :
    Option (Option Addr × Option Addr × RbTree) :=
  if !tree.isRed (tree.child .left sibling) && !tree.isRed (tree.child .right sibling) then
    let tree := tree.setRed sibling true
    some (some parent, tree.parent parent, tree)
  else do
    let (sibling, tree) ← eraseTurn d tree parent sibling
    let tree := tree.setRed sibling (tree.red parent)
    let tree := tree.setRed parent false
    let tree := tree.blacken (tree.child d.other sibling)
    let tree ← rotate d tree parent
    some (tree.root, some parent, tree)

def eraseFixup (d : Dir) (tree : RbTree) (parent : Addr) :
    Option (Option Addr × Option Addr × RbTree) := do
  let (sibling, tree) ← eraseSibling d tree parent
  eraseRefill d tree parent sibling

def eraseLoop : Nat → RbTree → Option Addr → Option Addr → Option (Option Addr × RbTree)
  | 0, _, _, _ => none
  | fuel + 1, tree, child, parent =>
      if child ≠ tree.root ∧ tree.isRed child = false then do
        let parent ← parent
        let d := if tree.child .left parent = child then Dir.left else Dir.right
        let (child, parent, tree) ← eraseFixup d tree parent
        eraseLoop fuel tree child parent
      else some (child, tree)

def rbErase (fuel : Nat) (tree : RbTree) (node : Addr) : Option RbTree := do
  let removed ← remove fuel tree node
  if removed.red = false then
    let (child, tree) ← eraseLoop fuel removed.tree removed.child removed.parent
    some (tree.blacken child)
  else some removed.tree

end ApnaOS.Process
