/-
Planning an edge dock on one graph and applying the plan to a later one.
-/
import OpenGpui.Docking.TabStack

namespace OpenGpui.Docking

/-- Where each node of a space hangs: its top node, its parent, and its position
when the parent is a split. -/
structure DockParentIndex where
  rootFor : KeyMap DockNodeId DockNodeId
  parent : KeyMap DockNodeId DockNodeId
  splitChildIndex : KeyMap DockNodeId Nat

def DockParentIndex.default : DockParentIndex := ⟨∅, ∅, ∅⟩

structure DockOrderedEdgeChildren where
  leading : DockNodeId
  trailing : DockNodeId

structure DockOrderedEdgeFractions where
  leading : Scalar
  trailing : Scalar

variable (zone : DropZone)

/-- Callers never pass the center zone, for which the source has no value. -/
def orderedEdgeChildren (newChild target : DockNodeId) : DockOrderedEdgeChildren :=
  match zone with
  | .left | .top => ⟨newChild, target⟩
  | .right | .bottom | .center => ⟨target, newChild⟩

def orderedEdgeFractions (newChildShare : Scalar) : DockOrderedEdgeFractions :=
  let existingShare := 1 - newChildShare
  match zone with
  | .left | .top => ⟨newChildShare, existingShare⟩
  | .right | .bottom | .center => ⟨existingShare, newChildShare⟩

def edgeInsertIndexMatchesZone (anchorIndex insertIndex : Nat) : Bool :=
  match zone with
  | .left | .top => insertIndex == anchorIndex
  | .right | .bottom => insertIndex == anchorIndex + 1
  | .center => false

/-- Makes room for a new child: it takes its share of the whole split or of the
anchor child alone. -/
def splitShareAndInsert (children : List DockNodeId) (fractions : List Scalar)
    (anchorIndex insertIndex : Nat) (newChild : DockNodeId) (sizing : DockEdgeDockSizing)
    (sizingScope : DockEdgeDockSizingScope) : Option (List DockNodeId × List Scalar) :=
  if children.isEmpty || children.length != fractions.length
      || decide (fractions.length ≤ anchorIndex) || decide (fractions.length < insertIndex) then
    none
  else
    let anchor := (fractions[anchorIndex]?).getD 0
    let take :=
      match sizingScope with
      | .wholeSplit => sizing.newChildShare
      | .anchorChild => anchor * sizing.newChildShare
    let scale := 1 - take
    let fractions :=
      match sizingScope with
      | .wholeSplit => fractions.map (· * scale)
      | .anchorChild => fractions.set anchorIndex (anchor - take)
    some (children.insertIdx insertIndex newChild,
      UiCore.normalizeSplitFractions (fractions.insertIdx insertIndex take))

namespace DockGraph

variable (self : DockGraph)

def indexSubtree (root : DockNodeId) : Nat → DockNodeId → DockParentIndex → DockParentIndex
  | 0, _, index => index
  | fuel + 1, node, index =>
    if index.rootFor.contains node then index
    else
      let index := { index with rootFor := index.rootFor.insert node root }
      match self.nodes.get node with
      | none => index
      | some (.tabs _ _) => index
      | some (.floating child) =>
        indexSubtree root fuel child { index with parent := index.parent.insert child node }
      | some (.split _ children _) =>
        children.zipIdx.foldl (fun index entry =>
            indexSubtree root fuel entry.1 { index with
                parent := index.parent.insert entry.1 node
                splitChildIndex := index.splitChildIndex.insert entry.1 entry.2 })
          index

variable (space : DockSpaceId)

def buildParentIndex : DockParentIndex :=
  (self.spaceRoots space).foldl (fun index root => self.indexSubtree root self.fuel root index)
    .default

variable (target : DockNodeId)

/-- The plan that reuses the split the target itself is. -/
def edgeDockTargetPlan (zone : DropZone) (axis : SplitAxis) :
    Option DockEdgeDockPlan :=
  match self.nodes.get target with
  | some (.split splitAxis children fractions) =>
    if splitAxis = axis ∧ ¬children.isEmpty ∧ children.length = fractions.length then
      let last := children.length - 1
      let (anchorIndex, insertIndex) := if zone.leads then (0, 0) else (last, last + 1)
      (children[anchorIndex]?).map fun anchorChild =>
        .insertIntoSplit target zone anchorChild anchorIndex insertIndex .fallback .wholeSplit
    else none
  | _ => none

/-- Climbs from `cur` past floating containers to the first split above it; the
split is reused when it runs along the axis. -/
def edgeDockAncestorPlan (index : DockParentIndex) (zone : DropZone) (axis : SplitAxis) :
    Nat → DockNodeId → Option DockEdgeDockPlan
  | 0, _ => none
  | fuel + 1, cur =>
    match index.parent[cur]? with
    | none => none
    | some parent =>
      match self.nodes.get parent with
      | some (.split splitAxis children fractions) =>
        if splitAxis ≠ axis ∨ children.isEmpty ∨ children.length ≠ fractions.length then
          none
        else do
          let anchorIndex ← index.splitChildIndex[cur]?
          let insertIndex := if zone.leads then anchorIndex else anchorIndex + 1
          let anchorChild ← children[anchorIndex]?
          some (.insertIntoSplit parent zone anchorChild anchorIndex insertIndex .fallback
            .anchorChild)
      | _ => edgeDockAncestorPlan index zone axis fuel parent

/-- Plans the topology change for an edge dock. -/
def edgeDockPlan (zone : DropZone) : Option DockEdgeDockPlan :=
  match zone.axis with
  | none => none
  | some axis =>
    let index := self.buildParentIndex space
    if !index.rootFor.contains target then none
    else
      match self.edgeDockTargetPlan target zone axis with
      | some plan => some plan
      | none =>
        match self.edgeDockAncestorPlan index zone axis self.fuel target with
        | some plan => some plan
        | none => some (.wrapTarget target axis zone .fallback)

variable (plan : DockEdgeDockPlan)

def edgeDockPlanIsCurrent : Bool :=
  match plan with
  | .insertIntoSplit split zone anchorChild anchorIndex insertIndex sizing _ =>
    if zone == .center || (self.rootForNodeInSpace space split).isNone then false
    else
      match self.nodes.get split with
      | some (.split axis children fractions) =>
        if zone.axis != some axis then false
        else
          !children.isEmpty && children.length == fractions.length
            && decide (anchorIndex < fractions.length)
            && children[anchorIndex]? == some anchorChild
            && decide (insertIndex ≤ fractions.length)
            && edgeInsertIndexMatchesZone zone anchorIndex insertIndex
            && sizing.isValid
      | _ => false
  | .wrapTarget target axis zone sizing =>
    zone.axis == some axis && sizing.isValid && (self.rootForNodeInSpace space target).isSome

def findParentInSubtreeWithin (target : DockNodeId) : Nat → DockNodeId → Option DockNodeId
  | 0, _ => none
  | fuel + 1, root =>
    match self.nodes.get root with
    | none => none
    | some (.tabs _ _) => none
    | some (.floating child) =>
      if child = target then some root else findParentInSubtreeWithin target fuel child
    | some (.split _ children _) =>
      if children.contains target then some root
      else children.findSome? (findParentInSubtreeWithin target fuel)

def findParentInSubtree (root target : DockNodeId) : Option DockNodeId :=
  self.findParentInSubtreeWithin target self.fuel root

def replaceChildInNode (node old new : DockNodeId) : Bool × DockGraph :=
  match self.nodes.get node with
  | some (.split axis children fractions) =>
    match children.findIdx? (· == old) with
    | none => (false, self)
    | some index => (true, self.setNode node (.split axis (children.set index new) fractions))
  | some (.floating child) =>
    if child ≠ old then (false, self) else (true, self.setNode node (.floating new))
  | some (.tabs _ _) | none => (false, self)

/-- Renames the first container that stands for `old`. -/
def replaceFloatingNode (old new : DockNodeId) :
    List DockFloatingContainer → Option (List DockFloatingContainer)
  | [] => none
  | floating :: rest =>
    if floating.node = old then some ({ floating with node := new } :: rest)
    else (replaceFloatingNode old new rest).map (floating :: ·)

def replaceNodeInSpaceTree (old new : DockNodeId) : Bool × DockGraph :=
  if self.root space = some old then (true, self.setRoot space new)
  else
    match (self.floatings[space]?).bind (replaceFloatingNode old new) with
    | some floatings => (true, { self with floatings := self.floatings.insert space floatings })
    | none =>
      match (self.spaceRoots space).findSome? fun root => self.findParentInSubtree root old with
      | some parent => self.replaceChildInNode parent old new
      | none => (false, self)

def applyEdgeDockPlan (newChild : DockNodeId) : Bool × DockGraph :=
  match plan with
  | .insertIntoSplit split _ _ anchorIndex insertIndex sizing sizingScope =>
    match self.nodes.get split with
    | some (.split axis children fractions) =>
      match splitShareAndInsert children fractions anchorIndex insertIndex newChild sizing
          sizingScope with
      | some (children, fractions) =>
        (true, self.setNode split (.split axis children fractions))
      | none => (false, self)
    | _ => (false, self)
  | .wrapTarget target axis zone sizing =>
    let orderedChildren := orderedEdgeChildren zone newChild target
    let orderedFractions := orderedEdgeFractions zone sizing.newChildShare
    let (split, self) := self.insertNode
      (.split axis [orderedChildren.leading, orderedChildren.trailing]
        [orderedFractions.leading, orderedFractions.trailing])
    self.replaceNodeInSpaceTree space target split

end DockGraph

end OpenGpui.Docking
