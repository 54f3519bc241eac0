/-
The tree of bounds that assigns paint orders: an arena of nodes, the search for the
greatest order among intersecting bounds, and the insertion of a leaf.
-/
import OpenGpui.Library.Forest
import Mathlib.Algebra.Group.Basic
import Mathlib.Algebra.Group.Nat.Defs
import Mathlib.Order.MinMax

namespace OpenGpui.Scene

structure Point (U : Type) where
  x : U
  y : U

structure Size (U : Type) where
  width : U
  height : U

structure Bounds (U : Type) where
  origin : Point U
  size : Size U

section Geometry

variable {U : Type} [AddCommGroup U] [LinearOrder U]

namespace Bounds

def fromCorners (topLeft bottomRight : Point U) : Bounds U where
  origin := topLeft
  size := ⟨bottomRight.x - topLeft.x, bottomRight.y - topLeft.y⟩

variable (bounds : Bounds U)

def bottomRight : Point U :=
  ⟨bounds.origin.x + bounds.size.width, bounds.origin.y + bounds.size.height⟩

variable (bounds other : Bounds U)

def union : Bounds U :=
  fromCorners ⟨min bounds.origin.x other.origin.x, min bounds.origin.y other.origin.y⟩
    ⟨max bounds.bottomRight.x other.bottomRight.x, max bounds.bottomRight.y other.bottomRight.y⟩

def intersects : Bool :=
  decide (bounds.origin.x < other.bottomRight.x) &&
    decide (other.origin.x < bounds.bottomRight.x) &&
      decide (bounds.origin.y < other.bottomRight.y) &&
        decide (other.origin.y < bounds.bottomRight.y)

def halfPerimeter : U := bounds.size.width + bounds.size.height

end Bounds

end Geometry

/-- Children per internal node at most. -/
def maxChildren : Nat := 12

inductive NodeKind where
  | leaf (order : Nat)
  | internal (children : List Nat)

structure Node (U : Type) where
  bounds : Bounds U
  maxOrder : Nat
  kind : NodeKind

/-- The path and the stack that the tree keeps for reuse are empty between calls. -/
structure BoundsTree (U : Type) where
  nodes : List (Node U)
  root : Option Nat
  maxLeaf : Option Nat

/-- The list with the entries at two places exchanged. -/
def swapAt {α : Type} (entries : List α) (first second : Nat) : List α :=
  match entries[first]?, entries[second]? with
  | some one, some two => (entries.set first two).set second one
  | _, _ => entries

def NodeKind.mapChildren (f : List Nat → List Nat) : NodeKind → NodeKind
  | leaf order => leaf order
  | internal children => internal (f children)

namespace BoundsTree

variable {U : Type} [AddCommGroup U] [LinearOrder U]

def empty : BoundsTree U := ⟨[], none, none⟩

def clear (_tree : BoundsTree U) : BoundsTree U := empty

section Search

variable (nodes : List (Node U)) (query : Bounds U)

/-- The rounds of the search are counted down; each pops one index off the stack, whose
top stands first.  A missing node would be a panic. -/
def search : Nat → List Nat → Nat → Option Nat
  | _, [], maxFound => some maxFound
  | 0, _ :: _, _ => none
  | fuel + 1, index :: stack, maxFound =>
    match nodes[index]? with
    | none => none
    | some node =>
      if node.maxOrder ≤ maxFound then search fuel stack maxFound
      else if query.intersects node.bounds then
        match node.kind with
        | .leaf order => search fuel stack (max maxFound order)
        | .internal children =>
          let pushed := children.filter fun child =>
            nodes[child]?.any fun node => decide (maxFound < node.maxOrder)
          search fuel (pushed.reverse ++ stack) maxFound
      else search fuel stack maxFound

end Search

variable (tree : BoundsTree U)

/-- The leaf of the greatest order answers when it intersects, and else the search. -/
def findMaxOrdering (query : Bounds U) : Option Nat :=
  match tree.root with
  | none => some 0
  | some root =>
    match tree.maxLeaf.map (tree.nodes[·]?) with
    | some none => none
    | some (some maxNode) =>
      if query.intersects maxNode.bounds then some maxNode.maxOrder
      else search tree.nodes query tree.nodes.length [root] 0
    | none => search tree.nodes query tree.nodes.length [root] 0

section Descent

variable (nodes : List (Node U)) (bounds : Bounds U)

structure BestChild (U : Type) where
  index : Nat
  pos : Nat
  cost : U

/-- The child that grows least, among the best so far and those from a position on. -/
def bestChildFrom : List Nat → Nat → BestChild U → Option (BestChild U)
  | [], _, best => some best
  | child :: rest, pos, best =>
    match nodes[child]? with
    | none => none
    | some node =>
      let cost := (bounds.union node.bounds).halfPerimeter
      bestChildFrom rest (pos + 1) (if cost < best.cost then ⟨child, pos, cost⟩ else best)

def bestChild : List Nat → Option (BestChild U)
  | [] => none
  | child :: rest =>
    match nodes[child]? with
    | none => none
    | some node =>
      bestChildFrom nodes bounds rest 1 ⟨child, 0, (bounds.union node.bounds).halfPerimeter⟩

/-- Where an insertion ends: the path of internal nodes from the root on, its last node,
and the leaf that is that node's best child. -/
structure Descent where
  path : List Nat
  last : Nat
  bestIndex : Nat
  bestPos : Nat

/-- Goes down to the best children until one is a leaf. -/
def descend : Nat → Nat → Option Descent
  | 0, _ => none
  | fuel + 1, current =>
    match nodes[current]? with
    | none => none
    | some node =>
      match node.kind with
      | .leaf _ => none
      | .internal children =>
        match bestChild nodes bounds children with
        | none => none
        | some best =>
          match nodes[best.index]? with
          | none => none
          | some child =>
            match child.kind with
            | .leaf _ => some ⟨[current], current, best.index, best.pos⟩
            | .internal _ =>
              (descend fuel best.index).map fun below =>
                { below with path := current :: below.path }

end Descent

/-- Two leaves under one node, the one of the greater order at the end. -/
def pairNode (sibling : Node U) (siblingIndex : Nat) (bounds : Bounds U) (order newLeaf : Nat) :
    Node U where
  bounds := sibling.bounds.union bounds
  maxOrder := max sibling.maxOrder order
  kind := .internal (if sibling.maxOrder < order then [siblingIndex, newLeaf]
    else [newLeaf, siblingIndex])

/-- The new leaf becomes a child of the last node of the path if there is room, and else
it takes the place of the best child together with that. -/
def placeLeaf (nodes : List (Node U)) (descent : Descent) (bounds : Bounds U)
    (order newLeaf : Nat) : Option (List (Node U)) :=
  match nodes[descent.last]?, nodes[descent.bestIndex]? with
  | some node, some sibling =>
    match node.kind with
    | .leaf _ => none
    | .internal children =>
      if children.length < maxChildren then
        let pushed := children ++ [newLeaf]
        let children :=
          if order ≤ node.maxOrder then
            swapAt pushed (pushed.length - 2) (pushed.length - 1)
          else pushed
        some (nodes.set descent.last
          { bounds := node.bounds.union bounds, maxOrder := max node.maxOrder order
            kind := .internal children })
      else
        let pair := pairNode sibling descent.bestIndex bounds order newLeaf
        let replaced := children.set descent.bestPos nodes.length
        let children :=
          if node.maxOrder < pair.maxOrder then
            swapAt replaced descent.bestPos (children.length - 1)
          else replaced
        some ((nodes.set descent.last { node with kind := .internal children }) ++ [pair])
  | _, _ => none

/-- A node of the path grows by the new bounds.  If its order grows, the child below it
on the path goes to the end. -/
def growNode (bounds : Bounds U) (order : Nat) (updatedChild : Option Nat) (node : Node U) :
    Node U :=
  let grown := { node with bounds := node.bounds.union bounds }
  if node.maxOrder < order then
    { grown with
      maxOrder := order
      kind := match updatedChild with
        | none => node.kind
        | some child => node.kind.mapChildren fun children =>
          match children.findIdx? (· == child) with
          | none => children
          | some pos => swapAt children pos (children.length - 1) }
  else grown

/-- Grows the nodes of the path from its end up. -/
def propagate (bounds : Bounds U) (order : Nat) :
    List Nat → Option Nat → List (Node U) → List (Node U)
  | [], _, nodes => nodes
  | index :: rest, updatedChild, nodes =>
    propagate bounds order rest (some index)
      (nodes.modify index (growNode bounds order updatedChild))

/-- The tree with a new leaf, whose index is the number of nodes there were. -/
def insertLeaf (bounds : Bounds U) (order : Nat) : Option (BoundsTree U) :=
  let newLeaf := tree.nodes.length
  let nodes := tree.nodes ++ [⟨bounds, order, .leaf order⟩]
  match tree.root with
  | none => some { tree with nodes, root := some newLeaf }
  | some root =>
    match nodes[root]? with
    | none => none
    | some rootNode =>
      match rootNode.kind with
      | .leaf _ =>
        some { tree with
          nodes := nodes ++ [pairNode rootNode root bounds order newLeaf]
          root := some nodes.length }
      | .internal _ =>
        (descend nodes bounds nodes.length root).bind fun descent =>
          (placeLeaf nodes descent bounds order newLeaf).map fun placed =>
            { tree with nodes := propagate bounds order descent.path.reverse none placed }

/-- Orders are counted in 32 bits. -/
def insert (bounds : Bounds U) : Option (BoundsTree U × Nat) :=
  (tree.findMaxOrdering bounds).bind fun maxIntersecting =>
    let ordering := (maxIntersecting + 1) % 2 ^ 32
    let newLeaf := tree.nodes.length
    (tree.insertLeaf bounds ordering).map fun inserted =>
      let maxLeaf :=
        match inserted.maxLeaf with
        | none => some newLeaf
        | some old =>
          if (inserted.nodes[old]?.any fun node => decide (node.maxOrder < ordering)) then
            some newLeaf
          else some old
      ({ inserted with maxLeaf }, ordering)

/-- Inserts the bounds one after the other, with the orders they are given. -/
def insertAll (tree : BoundsTree U) : List (Bounds U) → Option (BoundsTree U × List Nat)
  | [] => some (tree, [])
  | bounds :: rest =>
    (tree.insert bounds).bind fun inserted =>
      (inserted.1.insertAll rest).map fun after => (after.1, inserted.2 :: after.2)

end BoundsTree

end OpenGpui.Scene
