/-
Validation of the trees a graph attaches to its spaces.
-/
import OpenGpui.Docking.FloatingMutation

namespace OpenGpui.Docking

inductive DockGraphValidationError where
  | spaceRootMissing (space : DockSpaceId) (root : DockNodeId)
  | floatingNodeMissing (space : DockSpaceId) (floating : DockNodeId)
  | floatingContainerNodeNotFloating (space : DockSpaceId) (floating : DockNodeId)
  | invalidFloatingBounds (space : DockSpaceId) (floating : DockNodeId)
  | missingNode (node : DockNodeId)
  | duplicateNodeReference (node : DockNodeId)
  | cycleDetected (node : DockNodeId)
  | emptyTabs (tabs : DockNodeId)
  | tabsSelectedMissing (tabs : DockNodeId)
  | tabsSelectedItemMissing (tabs : DockNodeId) (selected : DockItemId)
  | duplicateItemId (item : DockItemId) (firstTabs duplicateTabs : DockNodeId)
  | splitTooFewChildren (split : DockNodeId) (childrenLen : Nat)
  | splitFractionsLenMismatch (split : DockNodeId) (childrenLen fractionsLen : Nat)
  | splitFractionInvalid (split : DockNodeId) (index : Nat)
  | centralNodeNotInRoot (space : DockSpaceId) (node : DockNodeId)
  | unreachableNode (node : DockNodeId)
deriving DecidableEq

def DockGraphValidationError.message : DockGraphValidationError → String
  | spaceRootMissing space root =>
    s!"dock space {space} references missing root node {debugNodeId root}"
  | floatingNodeMissing space floating =>
    s!"dock space {space} references missing floating node {debugNodeId floating}"
  | floatingContainerNodeNotFloating space floating =>
    s!"dock space {space} floating container {debugNodeId floating} is not a floating node"
  | invalidFloatingBounds space floating =>
    s!"dock space {space} floating container {debugNodeId floating} has invalid bounds"
  | missingNode node => s!"dock graph references missing node {debugNodeId node}"
  | duplicateNodeReference node =>
    s!"dock graph node {debugNodeId node} is referenced more than once"
  | cycleDetected node => s!"dock graph cycle detected at node {debugNodeId node}"
  | emptyTabs tabs => s!"tabs node {debugNodeId tabs} is empty"
  | tabsSelectedMissing tabs => s!"tabs node {debugNodeId tabs} has no selected item"
  | tabsSelectedItemMissing tabs selected =>
    s!"tabs node {debugNodeId tabs} selected item {selected} is not present"
  | duplicateItemId item firstTabs duplicateTabs =>
    s!"duplicate dock graph item id {item}: first seen in tabs node " ++
      s!"{debugNodeId firstTabs}, duplicated in tabs node {debugNodeId duplicateTabs}"
  | splitTooFewChildren split childrenLen =>
    s!"split node {debugNodeId split} has too few children: {childrenLen}"
  | splitFractionsLenMismatch split childrenLen fractionsLen =>
    s!"split node {debugNodeId split} has {childrenLen} children and {fractionsLen} fractions"
  | splitFractionInvalid split index =>
    s!"split node {debugNodeId split} fraction {index} is invalid"
  | centralNodeNotInRoot space node =>
    s!"dock space {space} central node {debugNodeId node} is not inside its root subtree"
  | unreachableNode node => s!"dock graph contains unreachable node {debugNodeId node}"

inductive GraphValidationMark where
  | visiting
  | done

/-- What one validation pass has seen so far. -/
structure DockGraphValidator where
  marks : KeyMap DockNodeId GraphValidationMark
  items : KeyMap DockItemId DockNodeId

def boundsIsFiniteWithNonNegativeSize (bounds : Bounds) : Bool :=
  bounds.origin.x.isFinite && bounds.origin.y.isFinite && bounds.size.width.isFinite
    && bounds.size.height.isFinite && decide (0 ≤ bounds.size.width)
    && decide (0 ≤ bounds.size.height)

/-- A fraction the graph refuses to store. -/
def fractionIsInvalid (fraction : Scalar) : Bool := !fraction.isFinite || decide (fraction < 0)

namespace DockGraphValidator

def new : DockGraphValidator := ⟨∅, ∅⟩

def claimItems (tabs : DockNodeId) :
    List DockItemId → DockGraphValidator → Except DockGraphValidationError DockGraphValidator
  | [], self => .ok self
  | item :: rest, self =>
    match self.items[item]? with
    | some firstTabs => .error (.duplicateItemId item firstTabs tabs)
    | none => claimItems tabs rest { self with items := self.items.insert item tabs }

def validateTabs (self : DockGraphValidator) (tabs : DockNodeId) (items : List DockItemId)
    (selected : Option DockItemId) : Except DockGraphValidationError DockGraphValidator :=
  if items.isEmpty then .error (.emptyTabs tabs)
  else
    match selected with
    | none => .error (.tabsSelectedMissing tabs)
    | some selected =>
      if !items.contains selected then .error (.tabsSelectedItemMissing tabs selected)
      else claimItems tabs items self

def validateSplit (split : DockNodeId) (children : List DockNodeId) (fractions : List Scalar) :
    Except DockGraphValidationError Unit :=
  if children.length < 2 then .error (.splitTooFewChildren split children.length)
  else if children.length ≠ fractions.length then
    .error (.splitFractionsLenMismatch split children.length fractions.length)
  else
    match fractions.findIdx? fractionIsInvalid with
    | some index => .error (.splitFractionInvalid split index)
    | none => .ok ()

/-- Marks end every descent that meets a node twice, so no descent is longer than
the arena. -/
def validateSubtree (nodes : DockNodes) : Nat → DockNodeId → DockGraphValidator →
    Except DockGraphValidationError DockGraphValidator
  | 0, node, _ => .error (.cycleDetected node)
  | fuel + 1, node, self =>
    match self.marks[node]? with
    | some .visiting => .error (.cycleDetected node)
    | some .done => .error (.duplicateNodeReference node)
    | none => do
        let self := { self with marks := self.marks.insert node .visiting }
        let self ← match nodes.get node with
          | none => .error (.missingNode node)
          | some (.tabs items selected) => self.validateTabs node items selected
          | some (.floating child) => validateSubtree nodes fuel child self
          | some (.split _ children fractions) => do
              validateSplit node children fractions
              children.foldlM (fun self child => validateSubtree nodes fuel child self) self
        .ok { self with marks := self.marks.insert node .done }

end DockGraphValidator

namespace DockGraph

variable (self : DockGraph)

def validateRoot (validator : DockGraphValidator)
    (entry : DockSpaceId × DockNodeId) : Except DockGraphValidationError DockGraphValidator :=
  if (self.node entry.2).isNone then .error (.spaceRootMissing entry.1 entry.2)
  else DockGraphValidator.validateSubtree self.nodes self.fuel entry.2 validator

def validateFloating (space : DockSpaceId) (validator : DockGraphValidator)
    (floating : DockFloatingContainer) :
    Except DockGraphValidationError DockGraphValidator :=
  if !boundsIsFiniteWithNonNegativeSize floating.bounds then
    .error (.invalidFloatingBounds space floating.node)
  else
    match self.node floating.node with
    | some (.floating _) =>
      DockGraphValidator.validateSubtree self.nodes self.fuel floating.node validator
    | some _ => .error (.floatingContainerNodeNotFloating space floating.node)
    | none => .error (.floatingNodeMissing space floating.node)

def validateCentral (entry : DockSpaceId × DockCentralRegion) :
    Except DockGraphValidationError Unit :=
  match entry.2.node with
  | none => .ok ()
  | some node =>
    if !self.rootSubtreeContains entry.1 node then .error (.centralNodeNotInRoot entry.1 node)
    else .ok ()

def validateWithUnreachableNodes (allowUnreachableNodes : Bool) :
    Except DockGraphValidationError Unit := do
  let validator ← self.roots.toList.foldlM self.validateRoot .new
  let validator ← self.floatings.toList.foldlM
    (fun validator entry => entry.2.foldlM (self.validateFloating entry.1) validator) validator
  self.centralRegions.toList.forM self.validateCentral
  if allowUnreachableNodes then .ok ()
  else
    match self.nodes.keys.find? fun node => !validator.marks.contains node with
    | some node => .error (.unreachableNode node)
    | none => .ok ()

def validate : Except DockGraphValidationError Unit := self.validateWithUnreachableNodes true

def validateCanonical : Except DockGraphValidationError Unit :=
  self.validateWithUnreachableNodes false

end DockGraph

end OpenGpui.Docking
