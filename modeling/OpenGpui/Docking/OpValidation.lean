/-
Checked operations: each request is validated against the graph, applied to a
copy, and kept only when the copy passes its own checks.
-/
import OpenGpui.Docking.Layout

namespace OpenGpui.Docking

/-- What an operation promises about the graph it leaves behind. -/
inductive DockTreeMutationExpectation where
  | validateOnly
  | itemsReachable (space : DockSpaceId) (items : List DockItemId)
  | itemAbsent (space : DockSpaceId) (item : DockItemId)

structure DockTreeMutationPlan where
  op : DockOp
  expectation : DockTreeMutationExpectation
  allowNoop : Bool

namespace DockTreeMutationPlan

variable (op : DockOp)

def mustChange (expectation : DockTreeMutationExpectation) : DockTreeMutationPlan :=
  ⟨op, expectation, false⟩

def allowingNoop (expectation : DockTreeMutationExpectation) : DockTreeMutationPlan :=
  ⟨op, expectation, true⟩

def invariantViolation (self : DockTreeMutationPlan) (reason : String) : DockGraphMutationError :=
  .mutationInvariantViolation self.op.opName reason

end DockTreeMutationPlan

namespace DockTreeMutationExpectation

def verify (self : DockTreeMutationExpectation) (graph : DockGraph) (op : String) :
    Except DockGraphMutationError Unit :=
  match self with
  | validateOnly => .ok ()
  | itemsReachable space items =>
    match items.find? fun item => !(graph.collectItemsInSpace space).contains item with
    | some item =>
      .error (.mutationInvariantViolation op
        s!"item {item} was not reachable in target space {space}")
    | none => .ok ()
  | itemAbsent space item =>
    if (graph.findItemInSpace space item).isSome then
      .error (.mutationInvariantViolation op
        s!"item {item} remained reachable in source space {space}")
    else .ok ()

end DockTreeMutationExpectation

namespace DockGraph

variable (self : DockGraph) (space : DockSpaceId)

def targetSpaceIsEmptyForOpen : Bool :=
  (self.root space).isNone && (self.floatingContainers space).isEmpty

variable (tabs : DockNodeId)

def requireTabsNode : Except DockGraphMutationError (List DockItemId) :=
  match self.node tabs with
  | some (.tabs items _) => .ok items
  | some _ => .error (.nodeIsNotTabs tabs)
  | none => .error (.tabsNodeNotFound tabs)

def requireNonEmptyTabsNode :
    Except DockGraphMutationError Unit := do
  let items ← self.requireTabsNode tabs
  if items.isEmpty then .error (.tabsNodeEmpty tabs) else .ok ()

def requireSourceNodeInSpace (node : DockNodeId) : Except DockGraphMutationError DockNodeId :=
  match self.rootForNodeInSpace space node with
  | some root => .ok root
  | none => .error (.sourceNodeNotInSpace space node)

def requireTargetNodeInSpace (target : DockNodeId) : Except DockGraphMutationError DockNodeId :=
  match self.rootForNodeInSpace space target with
  | some root => .ok root
  | none => .error (.targetNodeNotInSpace space target)

def validateSplitFractions (split : DockNodeId) (fractions : List Scalar) :
    Except DockGraphMutationError Unit :=
  match self.node split with
  | none => .error (.splitNodeNotFound split)
  | some (.split _ children _) =>
    if children.length < 2 then .error (.splitTooFewChildren split children.length)
    else if fractions.length ≠ children.length then
      .error (.splitFractionsLenMismatch split children.length fractions.length)
    else
      match fractions.findIdx? fractionIsInvalid with
      | some index => .error (.splitFractionInvalid split index)
      | none => .ok ()
  | some _ => .error (.nodeIsNotSplit split)

def validateSplitFractionUpdatesFrom (self : DockGraph) (seen : List DockNodeId) :
    List DockSplitResize → Except DockGraphMutationError Unit
  | [] => .ok ()
  | update :: rest =>
    if seen.contains update.split then .error (.duplicateSplitFractionUpdate update.split)
    else do
      self.validateSplitFractions update.split update.fractions
      validateSplitFractionUpdatesFrom self (update.split :: seen) rest

def validateSplitFractionUpdates (updates : List DockSplitResize) :
    Except DockGraphMutationError Unit :=
  self.validateSplitFractionUpdatesFrom [] updates

def validateOpenItemTarget (targetTabs : DockNodeId) :
    Except DockGraphMutationError Unit := do
  let _ ← self.requireTargetNodeInSpace space targetTabs
  let _ ← self.requireTabsNode targetTabs
  .ok ()

def validateGraphDropTarget (target : DockGraphDropTarget) : Except DockGraphMutationError Unit :=
  match target with
  | .center tabs | .tabBar tabs _ => do
      let _ ← self.requireTargetNodeInSpace space tabs
      let _ ← self.requireTabsNode tabs
      .ok ()
  | .edge plan =>
    if !self.edgeDockPlanIsCurrent space plan then
      .error (.mutationInvariantViolation "DockGraphDropTarget"
        "edge graph drop plan is no longer current")
    else if plan.dropZone = .center then
      .error (.mutationInvariantViolation "DockGraphDropTarget"
        "edge graph drop target cannot use center drop zone")
    else .ok ()
  | .emptySpace => .ok ()

variable (sourceSpace : DockSpaceId) (item : DockItemId) (targetSpace : DockSpaceId)

def validateMoveItem (target : DockGraphDropTarget) :
    Except DockGraphMutationError Unit :=
  if target = .emptySpace ∧ !self.targetSpaceIsEmptyForItemMove sourceSpace item targetSpace then
    .error (.targetSpaceNotEmpty targetSpace)
  else if (self.findItemInSpace sourceSpace item).isNone then
    .error (.itemNotFound sourceSpace item)
  else self.validateGraphDropTarget targetSpace target

variable (sourceTabs : DockNodeId)

def validateMoveTabs (targetSpace : DockSpaceId) (target : DockGraphDropTarget) :
    Except DockGraphMutationError Unit :=
  if target = .emptySpace ∧
      !self.targetSpaceIsEmptyForTabsMove sourceSpace sourceTabs targetSpace then
    .error (.targetSpaceNotEmpty targetSpace)
  else do
    self.requireNonEmptyTabsNode sourceTabs
    let _ ← self.requireSourceNodeInSpace sourceSpace sourceTabs
    self.validateGraphDropTarget targetSpace target

variable (floating : DockNodeId)

/-- The visible split a floating container would merge into a stack. -/
def visibleSplitPayload (target : DockGraphDropTarget) : Option (DockNodeId × DockNodeId) :=
  match target, self.node floating with
  | .center tabs, some (.floating child) | .tabBar tabs _, some (.floating child) =>
    if self.isVisibleSplitPayload child then some (child, tabs) else none
  | _, _ => none

def validateMoveFloating (targetSpace : DockSpaceId) (target : DockGraphDropTarget) :
    Except DockGraphMutationError Unit :=
  if (self.floatingContainer sourceSpace floating).isNone then
    .error (.floatingContainerNotFound sourceSpace floating)
  else
    match self.visibleSplitPayload floating target with
    | some (payload, tabs) =>
      .error (.visibleSplitPayloadCannotDockOverNonEmptyTarget payload tabs)
    | none =>
      if target = .emptySpace ∧
          !self.targetSpaceIsEmptyForFloatingMove sourceSpace floating targetSpace then
        .error (.targetSpaceNotEmpty targetSpace)
      else do
        self.validateGraphDropTarget targetSpace target
        match target.existingNode with
        | none => .ok ()
        | some targetNode =>
          if sourceSpace = targetSpace ∧ self.subtreeContains floating targetNode then
            .error (.cannotMergeFloatingIntoOwnSubtree floating targetNode)
          else .ok ()

def applySplitFractionUpdates (self : DockGraph) :
    List DockSplitResize → Bool × DockGraph
  | [] => (false, self)
  | update :: rest =>
    let (changed, self) := self.updateSplitFractions update.split update.fractions
    let (restChanged, self) := applySplitFractionUpdates self rest
    (changed || restChanged, self)

variable (op : DockOp)

def applyOpUnchecked : Bool × DockGraph :=
  match op with
  | .selectTab tabs item => self.selectTab tabs item
  | .closeItem space item => self.closeItem space item
  | .openItem space targetTabs item insertIndex =>
    self.openItem space targetTabs item insertIndex
  | .moveItem sourceSpace item targetSpace target =>
    self.moveItemBetweenSpaces sourceSpace item targetSpace target
  | .moveTabs sourceSpace sourceTabs targetSpace target =>
    self.moveTabsBetweenSpaces sourceSpace sourceTabs targetSpace target
  | .moveFloating sourceSpace floating targetSpace target =>
    self.moveFloatingBetweenSpaces sourceSpace floating targetSpace target
  | .floatItemInWindow sourceSpace item targetSpace bounds =>
    self.floatItemInWindow sourceSpace item targetSpace bounds
  | .floatTabsInWindow sourceSpace sourceTabs targetSpace bounds =>
    self.floatTabsInWindow sourceSpace sourceTabs targetSpace bounds
  | .setFloatingBounds space floating bounds => self.setFloatingBounds space floating bounds
  | .raiseFloating space floating => self.raiseFloating space floating
  | .setSplitFractions split fractions => self.updateSplitFractions split fractions
  | .setSplitFractionsMany updates => self.applySplitFractionUpdates updates

def applyTreeMutationPlan (plan : DockTreeMutationPlan) :
    Except DockGraphMutationError (Bool × DockGraph) :=
  let beforeLayout := self.exportLayout
  let retention := self.captureMutationRetention
  let (changed, next) := self.applyOpUnchecked plan.op
  let next := if changed then next.finalizeCheckedMutation retention else next
  let nextLayout := next.exportLayout
  if !changed then
    if nextLayout ≠ beforeLayout then
      .error (plan.invariantViolation "mutation reported no change after modifying the graph")
    else if plan.allowNoop then .ok (false, self)
    else
      .error (plan.invariantViolation "validated mutation did not attach its planned subtree")
  else if nextLayout = beforeLayout then
    .error (plan.invariantViolation "mutation reported a change without changing graph state")
  else
    match next.validate with
    | .error error => .error (plan.invariantViolation error.message)
    | .ok () =>
      match plan.expectation.verify next plan.op.opName with
      | .error error => .error error
      | .ok () => .ok (true, next)

/-- A move that leaves the item where it is. -/
def moveItemKeepsPlace (target : DockGraphDropTarget) : Bool :=
  decide (sourceSpace = targetSpace) && match self.findItemInSpace sourceSpace item with
    | none => false
    | some (sourceTabs, sourceIndex) =>
      match target with
      | .center tabs => tabs == sourceTabs
      | .tabBar tabs insertIndex =>
        tabs == sourceTabs && (insertIndex == sourceIndex || insertIndex == sourceIndex + 1)
      | .edge _ | .emptySpace => false

/-- A move of a stack onto itself. -/
def moveTabsKeepsPlace (targetSpace : DockSpaceId) (target : DockGraphDropTarget) : Bool :=
  decide (sourceSpace = targetSpace) && match target with
    | .center tabs | .tabBar tabs _ => tabs == sourceTabs
    | .edge _ | .emptySpace => false

/-- Applies an operation that passes its validation.  An error leaves the graph as
it was. -/
def applyOpChecked : Except DockGraphMutationError (Bool × DockGraph) :=
  match op with
  | .selectTab tabs item => do
      let items ← self.requireTabsNode tabs
      if !items.contains item then .error (.itemNotInTabs tabs item)
      else .ok (self.selectTab tabs item)
  | .closeItem space item =>
    if (self.findItemInSpace space item).isNone then .error (.itemNotFound space item)
    else self.applyTreeMutationPlan (.mustChange op (.itemAbsent space item))
  | .openItem space targetTabs item _ =>
    if self.containsItem item then .error (.itemAlreadyOpen item)
    else do
      match targetTabs with
      | some targetTabs => self.validateOpenItemTarget space targetTabs
      | none =>
        if !self.targetSpaceIsEmptyForOpen space then .error (.targetSpaceNotEmpty space)
        else .ok ()
      self.applyTreeMutationPlan (.mustChange op (.itemsReachable space [item]))
  | .moveItem sourceSpace item targetSpace target => do
      self.validateMoveItem sourceSpace item targetSpace target
      if self.moveItemKeepsPlace sourceSpace item targetSpace target then .ok (false, self)
      else self.applyTreeMutationPlan (.mustChange op (.itemsReachable targetSpace [item]))
  | .moveTabs sourceSpace sourceTabs targetSpace target => do
      self.validateMoveTabs sourceSpace sourceTabs targetSpace target
      if moveTabsKeepsPlace sourceSpace sourceTabs targetSpace target then .ok (false, self)
      else
        self.applyTreeMutationPlan
          (.mustChange op (.itemsReachable targetSpace (self.collectItemsInSubtree sourceTabs)))
  | .moveFloating sourceSpace floating targetSpace target => do
      self.validateMoveFloating sourceSpace floating targetSpace target
      self.applyTreeMutationPlan
        (.mustChange op (.itemsReachable targetSpace (self.collectItemsInSubtree floating)))
  | .floatItemInWindow sourceSpace item targetSpace _ =>
    if (self.findItemInSpace sourceSpace item).isNone then
      .error (.itemNotFound sourceSpace item)
    else self.applyTreeMutationPlan (.mustChange op (.itemsReachable targetSpace [item]))
  | .floatTabsInWindow sourceSpace sourceTabs targetSpace _ => do
      self.requireNonEmptyTabsNode sourceTabs
      let _ ← self.requireSourceNodeInSpace sourceSpace sourceTabs
      self.applyTreeMutationPlan
        (.mustChange op (.itemsReachable targetSpace (self.collectItemsInSubtree sourceTabs)))
  | .setFloatingBounds space floating _ | .raiseFloating space floating =>
    if (self.floatingContainer space floating).isNone then
      .error (.floatingContainerNotFound space floating)
    else self.applyTreeMutationPlan (.allowingNoop op .validateOnly)
  | .setSplitFractions split fractions => do
      self.validateSplitFractions split fractions
      self.applyTreeMutationPlan (.allowingNoop op .validateOnly)
  | .setSplitFractionsMany updates => do
      self.validateSplitFractionUpdates updates
      self.applyTreeMutationPlan (.allowingNoop op .validateOnly)

/-! The checked operation in three parts: its own validation, the moves that leave
everything in place, and the transactional plan. -/

/-- The validation an operation makes before it touches anything. -/
def validateOp : Except DockGraphMutationError Unit :=
  match op with
  | .selectTab tabs item => do
      let items ← self.requireTabsNode tabs
      if !items.contains item then .error (.itemNotInTabs tabs item) else .ok ()
  | .closeItem space item =>
    if (self.findItemInSpace space item).isNone then .error (.itemNotFound space item)
    else .ok ()
  | .openItem space targetTabs item _ =>
    if self.containsItem item then .error (.itemAlreadyOpen item)
    else
      match targetTabs with
      | some targetTabs => self.validateOpenItemTarget space targetTabs
      | none =>
        if !self.targetSpaceIsEmptyForOpen space then .error (.targetSpaceNotEmpty space)
        else .ok ()
  | .moveItem sourceSpace item targetSpace target =>
    self.validateMoveItem sourceSpace item targetSpace target
  | .moveTabs sourceSpace sourceTabs targetSpace target =>
    self.validateMoveTabs sourceSpace sourceTabs targetSpace target
  | .moveFloating sourceSpace floating targetSpace target =>
    self.validateMoveFloating sourceSpace floating targetSpace target
  | .floatItemInWindow sourceSpace item _ _ =>
    if (self.findItemInSpace sourceSpace item).isNone then
      .error (.itemNotFound sourceSpace item)
    else .ok ()
  | .floatTabsInWindow sourceSpace sourceTabs _ _ => do
      self.requireNonEmptyTabsNode sourceTabs
      let _ ← self.requireSourceNodeInSpace sourceSpace sourceTabs
      .ok ()
  | .setFloatingBounds space floating _ | .raiseFloating space floating =>
    if (self.floatingContainer space floating).isNone then
      .error (.floatingContainerNotFound space floating)
    else .ok ()
  | .setSplitFractions split fractions => self.validateSplitFractions split fractions
  | .setSplitFractionsMany updates => self.validateSplitFractionUpdates updates

/-- The validated operations that end before any mutation. -/
def keepsPlace : Bool :=
  match op with
  | .moveItem sourceSpace item targetSpace target =>
    self.moveItemKeepsPlace sourceSpace item targetSpace target
  | .moveTabs sourceSpace sourceTabs targetSpace target =>
    moveTabsKeepsPlace sourceSpace sourceTabs targetSpace target
  | _ => false

/-- What each operation promises about the graph it leaves behind. -/
def expectationOf : DockTreeMutationExpectation :=
  match op with
  | .closeItem space item => .itemAbsent space item
  | .openItem space _ item _ => .itemsReachable space [item]
  | .moveItem _ item targetSpace _ => .itemsReachable targetSpace [item]
  | .moveTabs _ sourceTabs targetSpace _ =>
    .itemsReachable targetSpace (self.collectItemsInSubtree sourceTabs)
  | .moveFloating _ floating targetSpace _ =>
    .itemsReachable targetSpace (self.collectItemsInSubtree floating)
  | .floatItemInWindow _ item targetSpace _ => .itemsReachable targetSpace [item]
  | .floatTabsInWindow _ sourceTabs targetSpace _ =>
    .itemsReachable targetSpace (self.collectItemsInSubtree sourceTabs)
  | .selectTab _ _ | .setFloatingBounds _ _ _ | .raiseFloating _ _ | .setSplitFractions _ _
  | .setSplitFractionsMany _ => .validateOnly

def allowsNoop : DockOp → Bool
  | .setFloatingBounds _ _ _ | .raiseFloating _ _ | .setSplitFractions _ _
  | .setSplitFractionsMany _ => true
  | _ => false

def planOf : DockTreeMutationPlan := ⟨op, self.expectationOf op, allowsNoop op⟩

theorem applyOpChecked_selectTab : self.applyOpChecked (.selectTab tabs item) =
      (self.validateOp (.selectTab tabs item)).map fun _ => self.selectTab tabs item := by
  simp only [applyOpChecked, validateOp]
  cases hitems : self.requireTabsNode tabs with
  | error error => rfl
  | ok items =>
    simp only [bind, Except.bind]
    split <;> rfl

/-- Every operation but a selection validates, then keeps its place or runs its plan. -/
theorem applyOpChecked_eq (hselect : ∀ tabs item, op ≠ .selectTab tabs item) :
    self.applyOpChecked op = match self.validateOp op with
      | .error error => .error error
      | .ok () =>
        if self.keepsPlace op then .ok (false, self)
        else self.applyTreeMutationPlan (self.planOf op) := by
  cases op with
  | selectTab tabs item => exact absurd rfl (hselect tabs item)
  | closeItem space item | floatItemInWindow sourceSpace item targetSpace bounds
  | setFloatingBounds space floating bounds | raiseFloating space floating =>
    simp only [applyOpChecked, validateOp, keepsPlace]
    split <;> rfl
  | openItem space targetTabs item insertIndex =>
    simp only [applyOpChecked, validateOp, keepsPlace]
    split
    · rfl
    · cases targetTabs with
      | none =>
        simp only
        split <;> rfl
      | some targetTabs =>
        simp only
        cases self.validateOpenItemTarget space targetTabs <;> rfl
  | moveItem sourceSpace item targetSpace target =>
    simp only [applyOpChecked, validateOp, keepsPlace]
    cases self.validateMoveItem sourceSpace item targetSpace target <;> rfl
  | moveTabs sourceSpace sourceTabs targetSpace target =>
    simp only [applyOpChecked, validateOp, keepsPlace]
    cases self.validateMoveTabs sourceSpace sourceTabs targetSpace target <;> rfl
  | moveFloating sourceSpace floating targetSpace target =>
    simp only [applyOpChecked, validateOp, keepsPlace]
    cases self.validateMoveFloating sourceSpace floating targetSpace target <;> rfl
  | floatTabsInWindow sourceSpace sourceTabs targetSpace bounds =>
    simp only [applyOpChecked, validateOp, keepsPlace]
    cases self.requireNonEmptyTabsNode sourceTabs with
    | error error => rfl
    | ok _ => cases self.requireSourceNodeInSpace sourceSpace sourceTabs <;> rfl
  | setSplitFractions split fractions =>
    simp only [applyOpChecked, validateOp, keepsPlace]
    cases self.validateSplitFractions split fractions <;> rfl
  | setSplitFractionsMany updates =>
    simp only [applyOpChecked, validateOp, keepsPlace]
    cases self.validateSplitFractionUpdates updates <;> rfl

/-- A plan that succeeds with a change. -/
structure PlanCommits (before : DockGraph) (plan : DockTreeMutationPlan) (after : DockGraph) :
    Prop where
  applied : ∃ next, before.applyOpUnchecked plan.op = (true, next) ∧
    after = next.finalizeCheckedMutation before.captureMutationRetention
  layout_ne : after.exportLayout ≠ before.exportLayout
  valid : after.validate = .ok ()
  verified : plan.expectation.verify after plan.op.opName = .ok ()

variable {changed : Bool}

theorem applyTreeMutationPlan_ok {self after : DockGraph} {plan : DockTreeMutationPlan}
    (h : self.applyTreeMutationPlan plan = .ok (changed, after)) :
    (changed = false ∧ after = self ∧ plan.allowNoop = true) ∨
      (changed = true ∧ PlanCommits self plan after) := by
  rw [applyTreeMutationPlan] at h
  rcases happly : self.applyOpUnchecked plan.op with ⟨applied, next⟩
  simp only [happly] at h
  cases applied with
  | false =>
    simp only [Bool.not_false, if_true, Bool.false_eq_true, if_false, ne_eq, ite_not] at h
    split at h
    · split at h
      · next hallows =>
        cases h
        exact .inl ⟨rfl, rfl, hallows⟩
      · cases h
    · cases h
  | true =>
    simp only [Bool.not_true, Bool.false_eq_true, if_false, if_true] at h
    split at h
    · cases h
    · next hlayout =>
      split at h
      · cases h
      · next hvalid =>
        split at h
        · cases h
        · next hverify =>
          cases h
          exact .inr ⟨rfl, ⟨next, happly, rfl⟩, hlayout, hvalid, hverify⟩

/-- Every way a checked operation can succeed. -/
theorem applyOpChecked_ok {self after : DockGraph} {op : DockOp}
    (h : self.applyOpChecked op = .ok (changed, after)) :
    self.validateOp op = .ok () ∧
      ((∃ tabs item, op = .selectTab tabs item ∧ self.selectTab tabs item = (changed, after)) ∨
        (changed = false ∧ after = self ∧ (self.keepsPlace op = true ∨ allowsNoop op = true)) ∨
        (changed = true ∧ self.keepsPlace op = false ∧
          PlanCommits self (self.planOf op) after)) := by
  by_cases hselect : ∃ tabs item, op = .selectTab tabs item
  · obtain ⟨tabs, item, rfl⟩ := hselect
    rw [applyOpChecked_selectTab] at h
    cases hvalid : self.validateOp (.selectTab tabs item) with
    | error error =>
      rw [hvalid] at h
      cases h
    | ok _ =>
      rw [hvalid] at h
      refine ⟨rfl, .inl ⟨tabs, item, rfl, ?_⟩⟩
      simpa [Except.map] using h
  · rw [applyOpChecked_eq _ _ fun tabs item heq => hselect ⟨tabs, item, heq⟩] at h
    cases hvalid : self.validateOp op with
    | error error =>
      rw [hvalid] at h
      cases h
    | ok _ =>
      simp only [hvalid] at h
      refine ⟨rfl, .inr ?_⟩
      cases hkeeps : self.keepsPlace op with
      | true =>
        simp only [hkeeps, if_true] at h
        cases h
        exact .inl ⟨rfl, rfl, .inl rfl⟩
      | false =>
        simp only [hkeeps, Bool.false_eq_true, if_false] at h
        rcases applyTreeMutationPlan_ok h with ⟨hchanged, hsame, hallows⟩ | ⟨hchanged, hcommits⟩
        · exact .inl ⟨hchanged, hsame, .inr hallows⟩
        · exact .inr ⟨hchanged, rfl, hcommits⟩

end DockGraph

end OpenGpui.Docking
