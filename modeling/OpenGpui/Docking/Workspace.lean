/-
The workspace that owns a graph: its revision counter, the commits it remembers
until they are retired, and the panel and merge transactions that change the
graph through it.  A function into `Option` has no value where the source panics.
-/
import OpenGpui.Docking.OpValidation

namespace OpenGpui.Docking

/-- Whether an action changed anything. -/
inductive DockActionOutcome where
  | changed
  | unchanged
deriving DecidableEq

def DockActionOutcome.fromChanged (changed : Bool) : DockActionOutcome :=
  if changed then .changed else .unchanged

inductive DockPolicyError where
  | rejected (reason : String)

/-- Why an action was not carried out. -/
inductive DockActionApplyError where
  | panelNotRegistered (item : DockItemId)
  | panelNotClosable (item : DockItemId)
  | graph (error : DockGraphMutationError)
  | policy (error : DockPolicyError)

structure DockWorkspacePayloadDropOutcome where
  action : DockActionOutcome
  focusItem : Option DockItemId

abbrev DockWorkspaceLockedPayloadDropCommitId := Nat

structure DockWorkspaceLockedPayloadDropCommitReceipt where
  commitId : DockWorkspaceLockedPayloadDropCommitId
  outcome : DockWorkspacePayloadDropOutcome

abbrev DockWorkspaceGraphCommitId := Nat

/-- Proof that a commit was made, and at which revision. -/
structure DockWorkspaceGraphCommitReceipt where
  commitId : DockWorkspaceGraphCommitId
  graphRevision : Nat
deriving DecidableEq

/-- A graph to be stored while the revision is the expected one. -/
structure DockWorkspacePreparedGraphCommit where
  commitId : DockWorkspaceGraphCommitId
  expectedRevision : Nat
  projectedGraph : DockGraph

inductive DockWorkspaceGraphCommitPreparation where
  | prepared (commit : DockWorkspacePreparedGraphCommit)
  | alreadyCommitted (receipt : DockWorkspaceGraphCommitReceipt)

/-- Whether anything was committed since. -/
inductive DockWorkspaceGraphCommitObservation where
  | exact
  | superseded

/-- A graph with its revision and the commits made on it. -/
structure DockWorkspace where
  graph : DockGraph
  graphRevision : Nat
  nextLockedPayloadDropCommitGeneration : Nat
  lockedPayloadDropCommits :
    KeyMap DockWorkspaceLockedPayloadDropCommitId DockWorkspaceLockedPayloadDropCommitReceipt
  nextGraphCommitGeneration : Nat
  graphCommits : KeyMap DockWorkspaceGraphCommitId DockWorkspaceGraphCommitReceipt

/-- What panel metadata and docking policy say about a panel transaction. -/
structure DockPanelRules where
  /-- Whether a registered item may be closed; unregistered items have no entry. -/
  closable : DockItemId → Option Bool
  validateItemTargetSpace : DockSpaceId → DockItemId → Except DockPolicyError Unit

namespace DockPanelRules

variable (self : DockPanelRules)

def validateOpen (item : DockItemId) : Except DockActionApplyError Unit :=
  match self.closable item with
  | none => .error (.panelNotRegistered item)
  | some _ => .ok ()

def validateClose (item : DockItemId) : Except DockActionApplyError Unit :=
  match self.closable item with
  | none => .error (.panelNotRegistered item)
  | some true => .ok ()
  | some false => .error (.panelNotClosable item)

end DockPanelRules

/-- Where the items of a merged space go. -/
inductive DockMergeBackTarget where
  | spaceOnly
  | tabs (tabs : DockNodeId)

/-- The next value of a 64-bit counter that must not wrap around. -/
def checkedNext (counter : Nat) : Option Nat :=
  if counter = U64_MAX then none else some (counter + 1)

theorem checkedNext_eq_some {counter next : Nat} (h : checkedNext counter = some next) :
    next = counter + 1 := by
  simp only [checkedNext] at h
  split at h
  · simp at h
  · exact (Option.some.inj h).symm

namespace DockWorkspace

def new (graph : DockGraph) : DockWorkspace := ⟨graph, 0, 0, ∅, 0, ∅⟩

variable (self : DockWorkspace)

def advanceGraphRevision : Option DockWorkspace := do
  let revision ← checkedNext self.graphRevision
  some { self with graphRevision := revision }

/-- A graph is stored under the next revision. -/
def replaceGraph (graph : DockGraph) : Option DockWorkspace :=
  { self with graph := graph }.advanceGraphRevision

def setGraph (graph : DockGraph) : Option DockWorkspace := self.replaceGraph graph

def applyOpChecked (self : DockWorkspace) (op : DockOp) :
    Option (Except DockGraphMutationError Bool × DockWorkspace) :=
  match self.graph.applyOpChecked op with
  | .error error => some (.error error, self)
  | .ok (false, graph) => some (.ok false, { self with graph := graph })
  | .ok (true, graph) => do
      let self ← { self with graph := graph }.advanceGraphRevision
      some (.ok true, self)

def allocateGraphCommitId :
    Option (DockWorkspaceGraphCommitId × DockWorkspace) := do
  let generation ← checkedNext self.nextGraphCommitGeneration
  some (generation, { self with nextGraphCommitGeneration := generation })

variable (commitId : DockWorkspaceGraphCommitId)

/-- Replaces the graph and remembers the commit under its identifier. -/
def recordGraphCommit
    (projectedGraph : DockGraph) : Option (DockWorkspaceGraphCommitReceipt × DockWorkspace) := do
  let self ← self.replaceGraph projectedGraph
  let receipt := ⟨commitId, self.graphRevision⟩
  some (receipt, { self with graphCommits := self.graphCommits.insert commitId receipt })

/-- A commit is made once; asked for again, it returns its receipt. -/
def commitOrReplayGraph (expectedGraph projectedGraph : DockGraph) :
    Option (Option DockWorkspaceGraphCommitReceipt × DockWorkspace) :=
  match self.graphCommits[commitId]? with
  | some receipt => some (some receipt, self)
  | none =>
    if !self.graph.matchesExactly expectedGraph then some (none, self)
    else do
      let (receipt, self) ← self.recordGraphCommit commitId projectedGraph
      some (some receipt, self)

/-- A commit that was made already is not prepared again. -/
def prepareGraphCommit (projectedGraph : DockGraph) : DockWorkspaceGraphCommitPreparation :=
  match self.graphCommits[commitId]? with
  | some receipt => .alreadyCommitted receipt
  | none => .prepared ⟨commitId, self.graphRevision, projectedGraph⟩

variable (prepared : DockWorkspacePreparedGraphCommit)

/-- Nothing was committed since the preparation. -/
def canCommitPreparedGraph : Bool :=
  self.graphRevision == prepared.expectedRevision && !self.graphCommits.contains prepared.commitId

def commitPreparedGraph :
    Option (DockWorkspaceGraphCommitReceipt × DockWorkspace) :=
  if !self.canCommitPreparedGraph prepared then none
  else self.recordGraphCommit prepared.commitId prepared.projectedGraph

def graphCommit : Option DockWorkspaceGraphCommitReceipt := self.graphCommits[commitId]?

variable (receipt : DockWorkspaceGraphCommitReceipt)

/-- Whether the revision of a receipt is still the current one. -/
def observeGraphCommit :
    Option DockWorkspaceGraphCommitObservation :=
  match self.graphCommits[receipt.commitId]? with
  | none => none
  | some committed =>
    if committed ≠ receipt then none
    else if self.graphRevision = receipt.graphRevision then some .exact
    else some .superseded

/-- A retired commit is forgotten. -/
def retireGraphCommit : DockWorkspace :=
  { self with graphCommits := self.graphCommits.erase receipt.commitId }

def allocateLockedPayloadDropCommitId :
    Option (DockWorkspaceLockedPayloadDropCommitId × DockWorkspace) := do
  let generation ← checkedNext self.nextLockedPayloadDropCommitGeneration
  some (generation, { self with nextLockedPayloadDropCommitGeneration := generation })

def commitOrReplayLockedPayloadDrop (commitId : DockWorkspaceLockedPayloadDropCommitId)
    (expectedGraph projectedGraph : DockGraph) (outcome : DockWorkspacePayloadDropOutcome) :
    Option (Option DockWorkspaceLockedPayloadDropCommitReceipt × DockWorkspace) :=
  match self.lockedPayloadDropCommits[commitId]? with
  | some receipt => some (some receipt, self)
  | none =>
    if !self.graph.matchesExactly expectedGraph then some (none, self)
    else do
      let receipt : DockWorkspaceLockedPayloadDropCommitReceipt := ⟨commitId, outcome⟩
      let self ← self.replaceGraph projectedGraph
      some (some receipt, { self with
        lockedPayloadDropCommits := self.lockedPayloadDropCommits.insert commitId receipt })

def retireLockedPayloadDropCommit
    (receipt : DockWorkspaceLockedPayloadDropCommitReceipt) : DockWorkspace :=
  { self with lockedPayloadDropCommits := self.lockedPayloadDropCommits.erase receipt.commitId }

/-- How a transaction ends: with a result or an error, and the workspace after it. -/
abbrev Transaction := Option (Except DockActionApplyError DockActionOutcome × DockWorkspace)

/-- The outcome says whether the operation changed the graph. -/
def commitGraphOp (op : DockOp) : Transaction := do
  let (result, self) ← self.applyOpChecked op
  match result with
  | .error error => some (.error (.graph error), self)
  | .ok changed => some (.ok (.fromChanged changed), self)

variable (rules : DockPanelRules) (space : DockSpaceId) (item : DockItemId)

def commitCloseItem : Transaction :=
  match rules.validateClose item with
  | .error error => some (.error error, self)
  | .ok () => self.commitGraphOp (.closeItem space item)

def commitOpenItem (targetTabs : Option DockNodeId) (item : DockItemId) (insertIndex : Option Nat) :
    Transaction :=
  match rules.validateOpen item with
  | .error error => some (.error error, self)
  | .ok () =>
    match rules.validateItemTargetSpace space item with
    | .error error => some (.error (.policy error), self)
    | .ok () => self.commitGraphOp (.openItem space targetTabs item insertIndex)

/-- Opens an item where a placement resolves to on the current graph: a stack and a
tab position. -/
def commitOpenPanelAtPlacement
    (placement : DockGraph → DockSpaceId → Option DockNodeId × Option Nat) : Transaction :=
  let (targetTabs, insertIndex) := placement self.graph space
  self.commitOpenItem rules space targetTabs item insertIndex

def requireNonEmptyTabsForMerge (tabs : DockNodeId) : Except DockActionApplyError Unit :=
  match self.graph.node tabs with
  | some (.tabs items _) =>
    if items.isEmpty then .error (.graph (.tabsNodeEmpty tabs)) else .ok ()
  | some _ => .error (.graph (.nodeIsNotTabs tabs))
  | none => .error (.graph (.tabsNodeNotFound tabs))

def validateMergeRootIntoEmptySpace
    (sourceSpace targetSpace : DockSpaceId) : Except DockActionApplyError Unit :=
  if !(self.graph.floatingContainers targetSpace).isEmpty then
    .error (.graph (.targetSpaceNotEmpty targetSpace))
  else (self.graph.rootTabsInSpace sourceSpace).forM self.requireNonEmptyTabsForMerge

def validateNonEmptyMergePayload
    (sourceSpace targetSpace : DockSpaceId) : Except DockActionApplyError Unit :=
  match self.graph.root sourceSpace, self.graph.root targetSpace with
  | some sourceRoot, some targetRoot =>
    if self.graph.isVisibleSplitPayload sourceRoot then
      .error (.graph (.visibleSplitPayloadCannotDockOverNonEmptyTarget sourceRoot targetRoot))
    else .ok ()
  | _, _ => .ok ()

variable (targetSpace : DockSpaceId)

/-- The only stack of the target space. -/
def uniqueMergeTargetTabs : Except DockActionApplyError DockNodeId :=
  match self.graph.rootTabsInSpace targetSpace with
  | [targetTabs] => .ok targetTabs
  | tabs => .error (.graph (.mergeTargetTabsNotUnique targetSpace tabs.length))

def validateExplicitMergeTargetTabs (targetTabs : DockNodeId) : Except DockActionApplyError Unit :=
  match self.graph.node targetTabs with
  | some (.tabs _ _) =>
    if (self.graph.rootForNodeInSpace targetSpace targetTabs).isNone then
      .error (.graph (.targetNodeNotInSpace targetSpace targetTabs))
    else .ok ()
  | some _ => .error (.graph (.nodeIsNotTabs targetTabs))
  | none => .error (.graph (.tabsNodeNotFound targetTabs))

/-- The named target stack, or else the only one. -/
def mergeTargetTabs (targetTabs : Option DockNodeId) : Except DockActionApplyError DockNodeId :=
  match targetTabs with
  | none => self.uniqueMergeTargetTabs targetSpace
  | some tabs => do
      self.validateExplicitMergeTargetTabs targetSpace tabs
      .ok tabs

variable (sourceSpace targetSpace : DockSpaceId)

def validateMergeSpaceIntoTarget
    (targetTabs : Option DockNodeId) : Except DockActionApplyError Unit :=
  if sourceSpace = targetSpace then .ok ()
  else if (self.graph.root sourceSpace).isSome && (self.graph.root targetSpace).isNone then
    self.validateMergeRootIntoEmptySpace sourceSpace targetSpace
  else if (self.graph.root sourceSpace).isSome then do
    self.validateNonEmptyMergePayload sourceSpace targetSpace
    let _ ← self.mergeTargetTabs targetSpace targetTabs
    ((self.graph.rootTabsInSpace sourceSpace).filter fun tabs =>
      (self.graph.rootForNodeInSpace sourceSpace tabs).isSome).forM self.requireNonEmptyTabsForMerge
  else .ok ()

/-- Installs a merged graph that passes validation. -/
def commitMergedGraph (op : String) (next : DockGraph) : Transaction :=
  match next.validate with
  | .error error =>
    some (.error (.graph (.mutationInvariantViolation op error.message)), self)
  | .ok () => do
      let self ← self.setGraph next
      some (.ok .changed, self)

def commitMergeSpaceFloatingForestInto : Transaction :=
  match self.graph.mergeSpaceFloatingForestInto sourceSpace targetSpace with
  | (false, _) => some (.ok .unchanged, self)
  | (true, next) => self.commitMergedGraph "MergeSpaceFloatingForest" next

def commitMergeSpaceRootIntoEmptySpace : Transaction :=
  match self.validateMergeRootIntoEmptySpace sourceSpace targetSpace with
  | .error error => some (.error error, self)
  | .ok () =>
    match self.graph.moveRootToEmptySpace sourceSpace targetSpace with
    | (false, _) => some (.ok .unchanged, self)
    | (true, next) => self.commitMergedGraph "MergeSpaceRootIntoEmptySpace" next

/-- The floating containers follow the root; either step alone makes a change. -/
def thenMergeFloatingForest (first : Transaction) (sourceSpace targetSpace : DockSpaceId) :
    Transaction := do
  let (rootResult, self) ← first
  match rootResult with
  | .error error => some (.error error, self)
  | .ok rootOutcome =>
    let (result, self) ← self.commitMergeSpaceFloatingForestInto sourceSpace targetSpace
    match result with
    | .error error => some (.error error, self)
    | .ok outcome =>
      some (.ok (if rootOutcome = .changed then .changed else outcome), self)

def commitMergeSpaceIntoTargetWithPolicy
    (sourceSpace targetSpace : DockSpaceId) (targetTabs : Option DockNodeId) : Transaction :=
  match self.validateMergeSpaceIntoTarget sourceSpace targetSpace targetTabs with
  | .error error => some (.error error, self)
  | .ok () =>
    if sourceSpace = targetSpace then some (.ok .unchanged, self)
    else if (self.graph.rootTabsInSpace sourceSpace).isEmpty then
      self.commitMergeSpaceFloatingForestInto sourceSpace targetSpace
    else if (self.graph.root targetSpace).isNone then
      thenMergeFloatingForest (self.commitMergeSpaceRootIntoEmptySpace sourceSpace targetSpace)
        sourceSpace targetSpace
    else
      match self.validateNonEmptyMergePayload sourceSpace targetSpace with
      | .error error => some (.error error, self)
      | .ok () =>
        match self.mergeTargetTabs targetSpace targetTabs with
        | .error error => some (.error error, self)
        | .ok targetTabs =>
          match self.graph.moveRootToNonEmptySpace sourceSpace targetSpace targetTabs with
          | (false, _) => self.commitMergeSpaceFloatingForestInto sourceSpace targetSpace
          | (true, next) =>
            thenMergeFloatingForest (self.commitMergedGraph "MergeSpaceIntoNonEmptySpace" next)
              sourceSpace targetSpace

def commitPrevalidatedMergeSpaceIntoTarget
    (sourceSpace targetSpace : DockSpaceId) (target : DockMergeBackTarget) : Transaction :=
  if sourceSpace = targetSpace then some (.ok .unchanged, self)
  else if (self.graph.root sourceSpace).isSome && (self.graph.root targetSpace).isSome then
    match target with
    | .spaceOnly =>
      some (.error (.graph (.mergeTargetTabsNotUnique targetSpace
        (self.graph.rootTabsInSpace targetSpace).length)), self)
    | .tabs targetTabs =>
      self.commitMergeSpaceIntoTargetWithPolicy sourceSpace targetSpace (some targetTabs)
  else
    match target with
    | .tabs targetTabs =>
      some (.error (.graph (.targetNodeNotInSpace targetSpace targetTabs)), self)
    | .spaceOnly => self.commitMergeSpaceIntoTargetWithPolicy sourceSpace targetSpace none

end DockWorkspace

end OpenGpui.Docking
