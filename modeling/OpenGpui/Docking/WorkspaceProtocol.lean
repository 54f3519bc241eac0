/-
Runs of a workspace: any order of graph operations, graph replacements, commits,
and panel and merge transactions.  A revision names one graph, and a remembered
commit is never applied again, as long as no step records a selection of the tab
that is selected already: that step changes the graph and reports no change.
-/
import OpenGpui.Docking.Workspace
import OpenGpui.Library.Machine

namespace OpenGpui.Docking

open Std.ExtTreeMap (contains_eq_isSome_getElem?)

/-- A workspace together with the prepared commits its callers still hold. -/
structure WorkspaceSession where
  workspace : DockWorkspace
  prepared : List DockWorkspacePreparedGraphCommit

inductive WorkspaceCommand where
  | applyOp (op : DockOp)
  | setGraph (graph : DockGraph)
  | allocateGraphCommitId
  | commitOrReplayGraph (commitId : DockWorkspaceGraphCommitId)
      (expectedGraph projectedGraph : DockGraph)
  | prepareGraphCommit (commitId : DockWorkspaceGraphCommitId) (projectedGraph : DockGraph)
  | commitPreparedGraph (held : Nat)
  | observeGraphCommit (receipt : DockWorkspaceGraphCommitReceipt)
  | retireGraphCommit (receipt : DockWorkspaceGraphCommitReceipt)
  | allocateLockedPayloadDropCommitId
  | commitOrReplayLockedPayloadDrop (commitId : DockWorkspaceLockedPayloadDropCommitId)
      (expectedGraph projectedGraph : DockGraph) (outcome : DockWorkspacePayloadDropOutcome)
  | retireLockedPayloadDropCommit (receipt : DockWorkspaceLockedPayloadDropCommitReceipt)
  | closeItem (rules : DockPanelRules) (space : DockSpaceId) (item : DockItemId)
  | openItem (rules : DockPanelRules) (space : DockSpaceId) (targetTabs : Option DockNodeId)
      (item : DockItemId) (insertIndex : Option Nat)
  | openPanelAtPlacement (rules : DockPanelRules) (space : DockSpaceId) (item : DockItemId)
      (placement : DockGraph → DockSpaceId → Option DockNodeId × Option Nat)
  | mergeSpaceInto (sourceSpace targetSpace : DockSpaceId) (target : DockMergeBackTarget)

inductive WorkspaceOutput where
  | applied (result : Except DockGraphMutationError Bool)
  | transacted (result : Except DockActionApplyError DockActionOutcome)
  | committed (receipt : Option DockWorkspaceGraphCommitReceipt)
  | prepared (preparation : DockWorkspaceGraphCommitPreparation)
  | observed (observation : Option DockWorkspaceGraphCommitObservation)
  | dropped (receipt : Option DockWorkspaceLockedPayloadDropCommitReceipt)
  | allocated (id : Nat)
  | done

/-- The outputs that tell the caller that nothing changed. -/
def WorkspaceOutput.reportsNoChange : WorkspaceOutput → Bool
  | applied (.ok false) => true
  | transacted (.ok .unchanged) => true
  | _ => false

namespace WorkspaceSession

def start (workspace : DockWorkspace) : WorkspaceSession := ⟨workspace, []⟩

def graph (self : WorkspaceSession) : DockGraph := self.workspace.graph

variable (self : WorkspaceSession)

def revision : Nat := self.workspace.graphRevision

/-- Puts the workspace a step leaves behind back into the session. -/
def resume {α : Type} (self : WorkspaceSession) (output : α → WorkspaceOutput)
    (result : Option (α × DockWorkspace)) : Option (WorkspaceOutput × WorkspaceSession) :=
  result.map fun entry => (output entry.1, { self with workspace := entry.2 })

def prepareGraphCommit (self : WorkspaceSession) (commitId : DockWorkspaceGraphCommitId)
    (projectedGraph : DockGraph) : WorkspaceOutput × WorkspaceSession :=
  match self.workspace.prepareGraphCommit commitId projectedGraph with
  | .prepared commit =>
    (.prepared (.prepared commit), { self with prepared := self.prepared ++ [commit] })
  | .alreadyCommitted receipt => (.prepared (.alreadyCommitted receipt), self)

/-- Committing hands the prepared commit over; only held commits can be committed. -/
def commitPreparedGraph (self : WorkspaceSession) (held : Nat) :
    Option (WorkspaceOutput × WorkspaceSession) := do
  let prepared ← self.prepared[held]?
  let (receipt, workspace) ← self.workspace.commitPreparedGraph prepared
  some (.committed (some receipt), ⟨workspace, self.prepared.eraseIdx held⟩)

def step (command : WorkspaceCommand) :
    Option (WorkspaceOutput × WorkspaceSession) :=
  match command with
  | .applyOp op => self.resume .applied (self.workspace.applyOpChecked op)
  | .setGraph graph =>
    self.resume (fun _ => .done) ((self.workspace.setGraph graph).map fun ws => ((), ws))
  | .allocateGraphCommitId => self.resume .allocated self.workspace.allocateGraphCommitId
  | .commitOrReplayGraph commitId expectedGraph projectedGraph =>
    self.resume .committed
      (self.workspace.commitOrReplayGraph commitId expectedGraph projectedGraph)
  | .prepareGraphCommit commitId projectedGraph =>
    some (self.prepareGraphCommit commitId projectedGraph)
  | .commitPreparedGraph held => self.commitPreparedGraph held
  | .observeGraphCommit receipt =>
    some (.observed (self.workspace.observeGraphCommit receipt), self)
  | .retireGraphCommit receipt =>
    some (.done, { self with workspace := self.workspace.retireGraphCommit receipt })
  | .allocateLockedPayloadDropCommitId =>
    self.resume .allocated self.workspace.allocateLockedPayloadDropCommitId
  | .commitOrReplayLockedPayloadDrop commitId expectedGraph projectedGraph outcome =>
    self.resume .dropped
      (self.workspace.commitOrReplayLockedPayloadDrop commitId expectedGraph projectedGraph outcome)
  | .retireLockedPayloadDropCommit receipt =>
    some (.done, { self with workspace := self.workspace.retireLockedPayloadDropCommit receipt })
  | .closeItem rules space item =>
    self.resume .transacted (self.workspace.commitCloseItem rules space item)
  | .openItem rules space targetTabs item insertIndex =>
    self.resume .transacted (self.workspace.commitOpenItem rules space targetTabs item insertIndex)
  | .openPanelAtPlacement rules space item placement =>
    self.resume .transacted (self.workspace.commitOpenPanelAtPlacement rules space item placement)
  | .mergeSpaceInto sourceSpace targetSpace target =>
    self.resume .transacted
      (self.workspace.commitPrevalidatedMergeSpaceIntoTarget sourceSpace targetSpace target)

end WorkspaceSession

/-- The workspace as a machine whose steps are the commands above. -/
def workspaceMachine : Machine WorkspaceSession WorkspaceCommand WorkspaceOutput :=
  ⟨WorkspaceSession.step⟩

/-! ## Operations that report no change -/

namespace DockGraph

/-- The stamp of the item and the counter of its stack have both reached the largest
stamp, so that recording the item again stores what is stored already. -/
def selectionStampIsExhausted (self : DockGraph) (tabs : DockNodeId) (item : DockItemId) : Bool :=
  match self.tabSelectionHistory[tabs]? with
  | none => false
  | some state =>
    state.nextStamp == U64_MAX && state.selectedStampsByItem[item]? == some U64_MAX

/-- The operation selects the tab that is selected already and records a new stamp. -/
def reselects (self : DockGraph) (op : DockOp) : Bool :=
  match op with
  | .selectTab tabs item =>
    match self.nodes.get tabs with
    | some (.tabs items selected) =>
      items.contains item && selected == some item && !self.selectionStampIsExhausted tabs item
    | _ => false
  | _ => false

theorem recordTabSelection_eq_self_iff (self : DockGraph) (tabs : DockNodeId) (item : DockItemId) :
    self.recordTabSelection tabs item = self ↔ self.selectionStampIsExhausted tabs item = true := by
  have hiff : self.recordTabSelection tabs item = self ↔
      (self.recordTabSelection tabs item).tabSelectionHistory = self.tabSelectionHistory := by
    constructor
    · intro heq
      rw [heq]
    · intro heq
      simp only [recordTabSelection] at heq ⊢
      rw [heq]
  rw [hiff]
  simp only [recordTabSelection, selectionStampIsExhausted]
  cases hstate : self.tabSelectionHistory[tabs]? with
  | none =>
    simp only [Option.getD_none, Bool.false_eq_true, iff_false]
    intro heq
    have hget := congrArg (fun history => history[tabs]?) heq
    simp [hstate] at hget
  | some state =>
    obtain ⟨nextStamp, stamps⟩ := state
    simp only [Option.getD_some, Bool.and_eq_true, beq_iff_eq]
    constructor
    · intro heq
      have hget := congrArg (fun history => history[tabs]?) heq
      simp only [KeyMap.get_insert, if_true, hstate, Option.some.injEq,
        DockTabSelectionState.mk.injEq] at hget
      obtain ⟨hnext, hstamps⟩ := hget
      have hmax : nextStamp = U64_MAX := by
        simp only [saturatingAddU64] at hnext
        omega
      have hitem := congrArg (fun stamps => stamps[item]?) hstamps
      simp only [KeyMap.get_insert, if_true] at hitem
      exact ⟨hmax, by rw [← hitem, hmax]⟩
    · rintro ⟨rfl, hitem⟩
      have hsat : saturatingAddU64 U64_MAX 1 = U64_MAX := by simp [saturatingAddU64]
      rw [hsat, KeyMap.insert_get_self hitem, KeyMap.insert_get_self hstate]

variable {self : DockGraph}

theorem setNode_of_get {id : DockNodeId} {node : DockNode} (h : self.nodes.get id = some node) :
    (self.setNode id node).nodes.entries = self.nodes.entries := by
  apply SlotMap.entries_eq_of_get
  intro other
  rw [setNode, SlotMap.get_set]
  split
  · next heq =>
    subst heq
    simp [h]
  · rfl

variable {after : DockGraph} {item : DockItemId} {tabs : DockNodeId}

/-- Selecting a tab reports no change exactly when the tab was selected, and then
the graph matches exactly unless a new stamp was recorded. -/
theorem selectTab_false_matchesExactly_iff
    (hvalid : self.validateOp (.selectTab tabs item) = .ok ())
    (h : self.selectTab tabs item = (false, after)) :
    self.matchesExactly after = true ↔ self.reselects (.selectTab tabs item) = false := by
  simp only [validateOp, requireTabsNode, node] at hvalid
  simp only [selectTab] at h
  simp only [reselects]
  cases hnode : self.nodes.get tabs with
  | none =>
    simp only [hnode] at hvalid
    cases hvalid
  | some stored =>
    cases stored with
    | split axis children fractions | floating child =>
      simp only [hnode] at hvalid
      cases hvalid
    | tabs items selected =>
      simp only [hnode, bind, Except.bind] at h hvalid
      cases hmem : items.contains item with
      | false =>
        rw [hmem] at hvalid
        cases hvalid
      | true =>
        simp only [hmem, Bool.not_true, Bool.false_eq_true, if_false, Prod.mk.injEq,
          bne_eq_false_iff_eq] at h
        obtain ⟨rfl, rfl⟩ := h
        have hnode' : (self.recordTabSelection tabs item).nodes.get tabs =
            some (.tabs items (some item)) := hnode
        have hentries := setNode_of_get hnode'
        have hflag : (items.contains item && (some item == some item)
            && !self.selectionStampIsExhausted tabs item) = false ↔
            self.selectionStampIsExhausted tabs item = true := by
          rw [hmem]
          simp
        rw [matchesExactly_iff, hentries]
        refine Iff.trans ?_ hflag.symm
        rw [← recordTabSelection_eq_self_iff]
        simp only [setNode]
        constructor
        · rintro ⟨-, -, -, -, hhistory⟩
          simp only [recordTabSelection] at hhistory ⊢
          rw [← hhistory]
        · intro heq
          rw [heq]
          exact ⟨rfl, rfl, rfl, rfl, rfl⟩

/-- Selecting another tab changes the stack. -/
theorem selectTab_true_not_matchesExactly (h : self.selectTab tabs item = (true, after)) :
    self.matchesExactly after = false := by
  simp only [selectTab] at h
  split at h
  · next items selected hnode =>
    split at h
    · cases h
    · simp only [Prod.mk.injEq, bne_iff_ne, ne_eq] at h
      obtain ⟨hne, rfl⟩ := h
      rw [← Bool.not_eq_true, matchesExactly_iff]
      rintro ⟨hentries, -⟩
      have hget : self.nodes.get tabs = ((self.recordTabSelection tabs item).setNode tabs
            (.tabs items (some item))).nodes.get tabs := by
        rw [SlotMap.get, SlotMap.get, hentries]
      rw [setNode_nodes, recordTabSelection_nodes, SlotMap.get_set_self _ hnode, hnode] at hget
      simp only [Option.some.injEq, DockNode.tabs.injEq, true_and] at hget
      exact hne hget
  · cases h

theorem applyOpChecked_false {op : DockOp}
    (h : self.applyOpChecked op = .ok (false, after)) (hkeep : self.reselects op = false) :
    self.matchesExactly after = true := by
  obtain ⟨hvalid, hcase⟩ := applyOpChecked_ok h
  rcases hcase with ⟨tabs, item, rfl, hselect⟩ | ⟨-, rfl, -⟩ | ⟨hchanged, -⟩
  · exact (selectTab_false_matchesExactly_iff hvalid hselect).mpr hkeep
  · exact matchesExactly_refl _
  · cases hchanged

theorem applyOpChecked_true {op : DockOp}
    (h : self.applyOpChecked op = .ok (true, after)) : self.matchesExactly after = false := by
  obtain ⟨-, hcase⟩ := applyOpChecked_ok h
  rcases hcase with ⟨tabs, item, rfl, hselect⟩ | ⟨hchanged, -⟩ | ⟨-, -, hcommits⟩
  · exact selectTab_true_not_matchesExactly hselect
  · cases hchanged
  · rw [← Bool.not_eq_true]
    intro hmatch
    exact hcommits.layout_ne (exportLayout_congr hmatch).symm

end DockGraph

/-! ## What one transaction does to graph and revision -/

/-- Either the graph stayed what it was and so did the revision, or the graph became
another one and the revision moved on. -/
structure GraphEffect (before after : DockWorkspace) : Prop where
  commits : after.graphCommits = before.graphCommits
  revision : (before.graph.matchesExactly after.graph = true ∧
      after.graphRevision = before.graphRevision) ∨
    (before.graph.matchesExactly after.graph = false ∧ before.graphRevision < after.graphRevision)

namespace GraphEffect

theorem refl (workspace : DockWorkspace) : GraphEffect workspace workspace :=
  ⟨rfl, .inl ⟨DockGraph.matchesExactly_refl _, rfl⟩⟩

theorem revision_le {before after : DockWorkspace} (h : GraphEffect before after) :
    before.graphRevision ≤ after.graphRevision := by
  rcases h.revision with ⟨-, heq⟩ | ⟨-, hlt⟩
  · exact heq.ge
  · exact hlt.le

end GraphEffect

namespace DockWorkspace

variable {self after : DockWorkspace}

theorem replaceGraph_eq_some {graph : DockGraph} (h : self.replaceGraph graph = some after) :
    after = { self with graph := graph, graphRevision := self.graphRevision + 1 } := by
  simp only [replaceGraph, advanceGraphRevision, Option.bind_eq_bind,
    Option.bind_eq_some_iff, Option.some.injEq] at h
  obtain ⟨revision, hrevision, rfl⟩ := h
  rw [checkedNext_eq_some hrevision]

theorem recordGraphCommit_eq_some
    {commitId : DockWorkspaceGraphCommitId} {projectedGraph : DockGraph}
    {receipt : DockWorkspaceGraphCommitReceipt}
    (h : self.recordGraphCommit commitId projectedGraph = some (receipt, after)) :
    receipt = ⟨commitId, self.graphRevision + 1⟩ ∧ after = { self with
        graph := projectedGraph
        graphRevision := self.graphRevision + 1
        graphCommits := self.graphCommits.insert commitId receipt } := by
  simp only [recordGraphCommit, Option.bind_eq_bind, Option.bind_eq_some_iff,
    Option.some.injEq, Prod.mk.injEq] at h
  obtain ⟨replaced, hreplaced, rfl, rfl⟩ := h
  rw [replaceGraph_eq_some hreplaced]
  exact ⟨rfl, rfl⟩

theorem applyOpChecked_effect {op : DockOp} {result : Except DockGraphMutationError Bool}
    (h : self.applyOpChecked op = some (result, after))
    (hkeep : self.graph.reselects op = false) : GraphEffect self after := by
  simp only [applyOpChecked] at h
  split at h
  · cases h
    exact GraphEffect.refl self
  · next graph happly =>
    cases h
    exact ⟨rfl, .inl ⟨DockGraph.applyOpChecked_false happly hkeep, rfl⟩⟩
  · next graph happly =>
    simp only [Option.bind_eq_bind, Option.bind_eq_some_iff, Option.some.injEq, Prod.mk.injEq] at h
    obtain ⟨advanced, hadvanced, -, rfl⟩ := h
    have heq : advanced = _ := replaceGraph_eq_some hadvanced
    rw [heq]
    exact ⟨rfl, .inr ⟨DockGraph.applyOpChecked_true happly, Nat.lt_succ_self _⟩⟩

/-- No change reported, none made: unless a selection was recorded again. -/
theorem applyOpChecked_reports {op : DockOp}
    (h : self.applyOpChecked op = some (.ok false, after)) :
    after.graphRevision = self.graphRevision := by
  simp only [applyOpChecked] at h
  split at h
  · cases h
  · simp only [Option.some.injEq, Prod.mk.injEq] at h
    rw [← h.2]
  · simp only [Option.bind_eq_bind, Option.bind_eq_some_iff, Option.some.injEq, Prod.mk.injEq] at h
    obtain ⟨advanced, -, hfalse, -⟩ := h
    cases hfalse

/-- A transaction that takes effect on the graph and reports no change only when it
made none. -/
def Sound (before : DockWorkspace) (transaction : Transaction) : Prop :=
  ∀ result after, transaction = some (result, after) → GraphEffect before after ∧
      (result = .ok .unchanged → after.graphRevision = before.graphRevision)

theorem sound_unchanged (self : DockWorkspace)
    (result : Except DockActionApplyError DockActionOutcome) :
    Sound self (some (result, self)) := by
  intro result' after h
  cases h
  exact ⟨GraphEffect.refl self, fun _ => rfl⟩

theorem sound_commitGraphOp (self : DockWorkspace) (op : DockOp)
    (hkeep : self.graph.reselects op = false) : Sound self (self.commitGraphOp op) := by
  intro result after h
  simp only [commitGraphOp, Option.bind_eq_bind, Option.bind_eq_some_iff] at h
  obtain ⟨⟨applied, middle⟩, happly, h⟩ := h
  have heffect := applyOpChecked_effect happly hkeep
  cases applied with
  | error error =>
    obtain ⟨rfl, rfl⟩ := h
    exact ⟨heffect, fun heq => by cases heq⟩
  | ok changed =>
    obtain ⟨rfl, rfl⟩ := h
    refine ⟨heffect, ?_⟩
    cases changed with
    | false => exact fun _ => applyOpChecked_reports happly
    | true => exact fun heq => by cases heq

theorem sound_commitCloseItem (self : DockWorkspace) (rules : DockPanelRules)
    (space : DockSpaceId) (item : DockItemId) :
    Sound self (self.commitCloseItem rules space item) := by
  rw [commitCloseItem]
  cases rules.validateClose item with
  | error error => exact sound_unchanged self _
  | ok _ => exact sound_commitGraphOp self _ rfl

theorem sound_commitOpenItem (self : DockWorkspace) (rules : DockPanelRules)
    (space : DockSpaceId) (targetTabs : Option DockNodeId) (item : DockItemId)
    (insertIndex : Option Nat) :
    Sound self (self.commitOpenItem rules space targetTabs item insertIndex) := by
  rw [commitOpenItem]
  cases rules.validateOpen item with
  | error error => exact sound_unchanged self _
  | ok _ =>
    cases rules.validateItemTargetSpace space item with
    | error error => exact sound_unchanged self _
    | ok _ => exact sound_commitGraphOp self _ rfl

/-- How a merge step leaves the workspace: untouched, or with a root or a list of
containers gone from the source space. -/
structure MergeEffect (sourceSpace : DockSpaceId) (before after : DockWorkspace) : Prop where
  commits : after.graphCommits = before.graphCommits
  outcome : after = before ∨ (before.graphRevision < after.graphRevision ∧
      ((before.graph.roots[sourceSpace]? ≠ none ∧ after.graph.roots[sourceSpace]? = none) ∨
        (before.graph.floatings[sourceSpace]? ≠ none ∧ after.graph.floatings[sourceSpace]? = none)))

theorem MergeEffect.refl (sourceSpace : DockSpaceId) (workspace : DockWorkspace) :
    MergeEffect sourceSpace workspace workspace :=
  ⟨rfl, .inl rfl⟩

variable {sourceSpace : DockSpaceId} {before : DockWorkspace}

theorem MergeEffect.graphEffect
    (h : MergeEffect sourceSpace before after) : GraphEffect before after := by
  refine ⟨h.commits, ?_⟩
  rcases h.outcome with heq | ⟨hlt, hgone⟩
  · rw [heq]
    exact .inl ⟨DockGraph.matchesExactly_refl _, rfl⟩
  · refine .inr ⟨?_, hlt⟩
    rw [← Bool.not_eq_true, DockGraph.matchesExactly_iff]
    rintro ⟨-, hroots, hfloatings, -⟩
    rcases hgone with ⟨hbefore, hafter⟩ | ⟨hbefore, hafter⟩
    · exact hbefore (by rw [hroots, hafter])
    · exact hbefore (by rw [hfloatings, hafter])

/-- What a merge transaction guarantees of every result. -/
def MergeSound (sourceSpace : DockSpaceId) (before : DockWorkspace)
    (transaction : Transaction) : Prop :=
  ∀ result after, transaction = some (result, after) →
    MergeEffect sourceSpace before after ∧ (result = .ok .unchanged → after = before)

theorem MergeSound.sound
    {transaction : Transaction} (h : MergeSound sourceSpace before transaction) :
    Sound before transaction := by
  intro result after hresult
  obtain ⟨heffect, hunchanged⟩ := h result after hresult
  exact ⟨heffect.graphEffect, fun heq => by rw [hunchanged heq]⟩

theorem mergeSound_unchanged (self : DockWorkspace) (sourceSpace : DockSpaceId)
    (result : Except DockActionApplyError DockActionOutcome) :
    MergeSound sourceSpace self (some (result, self)) := by
  intro result' after h
  cases h
  exact ⟨MergeEffect.refl sourceSpace self, fun _ => rfl⟩

variable {result : Except DockActionApplyError DockActionOutcome}

theorem commitMergedGraph_cases {op : String} {next : DockGraph}
    (h : self.commitMergedGraph op next = some (result, after)) :
    (after = self ∧ ∃ error, result = .error error) ∨ (result = .ok .changed ∧
        after = { self with graph := next, graphRevision := self.graphRevision + 1 }) := by
  rw [commitMergedGraph] at h
  cases hvalid : next.validate with
  | error error =>
    simp only [hvalid, Option.some.injEq, Prod.mk.injEq] at h
    exact .inl ⟨h.2.symm, _, h.1.symm⟩
  | ok _ =>
    simp only [hvalid, setGraph, Option.bind_eq_bind, Option.bind_eq_some_iff,
      Option.some.injEq, Prod.mk.injEq] at h
    obtain ⟨replaced, hreplaced, rfl, rfl⟩ := h
    exact .inr ⟨rfl, replaceGraph_eq_some hreplaced⟩

variable {targetSpace : DockSpaceId}

theorem commitMergeSpaceRootIntoEmptySpace_cases
    (h : self.commitMergeSpaceRootIntoEmptySpace sourceSpace targetSpace = some (result, after)) :
    after = self ∨ (result = .ok .changed ∧ after.graphCommits = self.graphCommits ∧
      self.graphRevision < after.graphRevision ∧
      self.graph.roots[sourceSpace]? ≠ none ∧ after.graph.roots[sourceSpace]? = none) := by
  rw [commitMergeSpaceRootIntoEmptySpace] at h
  cases hvalid : self.validateMergeRootIntoEmptySpace sourceSpace targetSpace with
  | error error =>
    simp only [hvalid, Option.some.injEq, Prod.mk.injEq] at h
    exact .inl h.2.symm
  | ok _ =>
    rcases hmove : self.graph.moveRootToEmptySpace sourceSpace targetSpace with ⟨changed, next⟩
    rw [hvalid, hmove] at h
    cases changed with
    | false =>
      simp only [Option.some.injEq, Prod.mk.injEq] at h
      exact .inl h.2.symm
    | true =>
      rcases commitMergedGraph_cases h with ⟨rfl, -⟩ | ⟨rfl, rfl⟩
      · exact .inl rfl
      · exact .inr ⟨rfl, rfl, Nat.lt_succ_self _, DockGraph.moveRootToEmptySpace_root hmove⟩

/-- Merging the containers keeps an absent root absent. -/
theorem commitMergeSpaceFloatingForestInto_effect
    (h : self.commitMergeSpaceFloatingForestInto sourceSpace targetSpace = some (result, after)) :
    MergeEffect sourceSpace self after ∧ (result = .ok .unchanged → after = self) ∧
      (self.graph.roots[sourceSpace]? = none → after.graph.roots[sourceSpace]? = none) := by
  rw [commitMergeSpaceFloatingForestInto] at h
  rcases hmerge : self.graph.mergeSpaceFloatingForestInto sourceSpace targetSpace with
    ⟨changed, next⟩
  rw [hmerge] at h
  cases changed with
  | false =>
    obtain ⟨-, rfl⟩ := h
    exact ⟨MergeEffect.refl _ _, fun _ => rfl, id⟩
  | true =>
    obtain ⟨hbefore, hafter, hroot⟩ := DockGraph.mergeSpaceFloatingForestInto_floatings hmerge
    rcases commitMergedGraph_cases h with ⟨rfl, error, rfl⟩ | ⟨rfl, rfl⟩
    · exact ⟨MergeEffect.refl _ _, fun _ => rfl, id⟩
    · refine ⟨⟨rfl, .inr ⟨Nat.lt_succ_self _, .inr ⟨hbefore, hafter⟩⟩⟩,
        fun heq => (by cases heq), hroot⟩

theorem mergeSound_commitMergeSpaceFloatingForestInto (self : DockWorkspace)
    (sourceSpace targetSpace : DockSpaceId) :
    MergeSound sourceSpace self
      (self.commitMergeSpaceFloatingForestInto sourceSpace targetSpace) := by
  intro result after h
  obtain ⟨heffect, hunchanged, -⟩ := commitMergeSpaceFloatingForestInto_effect h
  exact ⟨heffect, hunchanged⟩

/-- A root merge followed by a container merge: whatever the second step does, a root
that went away stays away. -/
theorem mergeSound_thenMergeFloatingForest {first : Transaction} (targetSpace : DockSpaceId)
    (hfirst : ∀ result after, first = some (result, after) →
      after = self ∨ (result = .ok .changed ∧ after.graphCommits = self.graphCommits ∧
        self.graphRevision < after.graphRevision ∧
        self.graph.roots[sourceSpace]? ≠ none ∧ after.graph.roots[sourceSpace]? = none)) :
    MergeSound sourceSpace self (thenMergeFloatingForest first sourceSpace targetSpace) := by
  intro result after h
  simp only [thenMergeFloatingForest, Option.bind_eq_bind, Option.bind_eq_some_iff] at h
  obtain ⟨⟨rootResult, middle⟩, hmiddle, h⟩ := h
  cases rootResult with
  | error error =>
    obtain ⟨rfl, rfl⟩ := h
    rcases hfirst _ _ hmiddle with rfl | ⟨heq, -⟩
    · exact ⟨MergeEffect.refl _ _, fun _ => rfl⟩
    · cases heq
  | ok rootOutcome =>
    simp only [Option.bind_eq_some_iff] at h
    obtain ⟨⟨forestResult, last⟩, hforest, h⟩ := h
    obtain ⟨heffect, hunchanged, hroot⟩ := commitMergeSpaceFloatingForestInto_effect hforest
    have hlast : last = after := by
      cases forestResult <;>
        · simp only [Option.some.injEq, Prod.mk.injEq] at h
          exact h.2
    subst hlast
    rcases hfirst _ _ hmiddle with rfl | ⟨hchanged, hcommits, hlt, hbefore, hgone⟩
    · refine ⟨heffect, fun hresult => hunchanged ?_⟩
      cases forestResult with
      | error error =>
        simp only [Option.some.injEq, Prod.mk.injEq] at h
        rw [hresult] at h
        cases h.1
      | ok outcome =>
        simp only [Option.some.injEq, Prod.mk.injEq] at h
        rw [hresult] at h
        have heq := h.1
        split at heq
        · cases heq
        · exact heq
    · refine ⟨⟨heffect.commits.trans hcommits, .inr ⟨?_, .inl ⟨hbefore, hroot hgone⟩⟩⟩, ?_⟩
      · exact lt_of_lt_of_le hlt heffect.graphEffect.revision_le
      · intro hresult
        cases forestResult with
        | error error =>
          simp only [Option.some.injEq, Prod.mk.injEq] at h
          rw [hresult] at h
          cases h.1
        | ok outcome =>
          cases hchanged
          simp only [if_true, Option.some.injEq, Prod.mk.injEq] at h
          rw [hresult] at h
          cases h.1

theorem mergeSound_commitMergeSpaceIntoTargetWithPolicy (self : DockWorkspace)
    (sourceSpace targetSpace : DockSpaceId) (targetTabs : Option DockNodeId) :
    MergeSound sourceSpace self
      (self.commitMergeSpaceIntoTargetWithPolicy sourceSpace targetSpace targetTabs) := by
  rw [commitMergeSpaceIntoTargetWithPolicy]
  cases self.validateMergeSpaceIntoTarget sourceSpace targetSpace targetTabs with
  | error error => exact mergeSound_unchanged self sourceSpace _
  | ok _ =>
    simp only
    split
    · exact mergeSound_unchanged self sourceSpace _
    · split
      · exact mergeSound_commitMergeSpaceFloatingForestInto self sourceSpace targetSpace
      · split
        · apply mergeSound_thenMergeFloatingForest
          intro result after h
          exact commitMergeSpaceRootIntoEmptySpace_cases h
        · cases self.validateNonEmptyMergePayload sourceSpace targetSpace with
          | error error => exact mergeSound_unchanged self sourceSpace _
          | ok _ =>
            cases self.mergeTargetTabs targetSpace targetTabs with
            | error error => exact mergeSound_unchanged self sourceSpace _
            | ok targetTabs =>
              simp only
              rcases hmove : self.graph.moveRootToNonEmptySpace sourceSpace targetSpace
                targetTabs with ⟨changed, next⟩
              cases changed with
              | false =>
                exact mergeSound_commitMergeSpaceFloatingForestInto self sourceSpace targetSpace
              | true =>
                apply mergeSound_thenMergeFloatingForest
                intro result after h
                have hroot := DockGraph.moveRootToNonEmptySpace_root hmove
                rcases commitMergedGraph_cases h with ⟨rfl, -⟩ | ⟨rfl, rfl⟩
                · exact .inl rfl
                · exact .inr ⟨rfl, rfl, Nat.lt_succ_self _, hroot⟩

theorem sound_commitPrevalidatedMergeSpaceIntoTarget (self : DockWorkspace)
    (sourceSpace targetSpace : DockSpaceId) (target : DockMergeBackTarget) :
    Sound self (self.commitPrevalidatedMergeSpaceIntoTarget sourceSpace targetSpace target) := by
  unfold commitPrevalidatedMergeSpaceIntoTarget
  split
  · exact sound_unchanged self _
  · split
    · cases target with
      | spaceOnly => exact sound_unchanged self _
      | tabs targetTabs =>
        exact (mergeSound_commitMergeSpaceIntoTargetWithPolicy self _ _ _).sound
    · cases target with
      | spaceOnly => exact (mergeSound_commitMergeSpaceIntoTargetWithPolicy self _ _ _).sound
      | tabs targetTabs => exact sound_unchanged self _

end DockWorkspace

/-! ## What one step of a session does -/

namespace WorkspaceSession

variable (self : WorkspaceSession)

/-- The command installs a graph: it sets one or applies a commit not yet remembered. -/
def installsGraph (command : WorkspaceCommand) : Bool :=
  match command with
  | .setGraph _ => true
  | .commitPreparedGraph _ => true
  | .commitOrReplayGraph commitId expectedGraph _ =>
    !self.workspace.graphCommits.contains commitId && self.graph.matchesExactly expectedGraph
  | .commitOrReplayLockedPayloadDrop commitId expectedGraph _ _ =>
    !self.workspace.lockedPayloadDropCommits.contains commitId
      && self.graph.matchesExactly expectedGraph
  | _ => false

/-- The step changed the graph or replaced it. -/
def Touches (command : WorkspaceCommand) (next : WorkspaceSession) : Prop :=
  self.installsGraph command = true ∨ self.graph.matchesExactly next.graph = false

/-- The step, whatever it returns, neither changes nor replaces the graph. -/
def LeavesGraph (command : WorkspaceCommand) : Prop :=
  ∀ output next, self.step command = some (output, next) → ¬self.Touches command next

/-- The step does not record a selection of the tab that is selected already. -/
def keepsSelectionStamps (command : WorkspaceCommand) : Bool :=
  match command with
  | .applyOp op => !self.graph.reselects op
  | _ => true

/-- The commands that forget the commit with this identifier. -/
def retires (commitId : DockWorkspaceGraphCommitId) : WorkspaceCommand → Bool
  | .retireGraphCommit receipt => receipt.commitId == commitId
  | _ => false

/-- What every step guarantees about the graph and its revision. -/
structure StepEffect (before : WorkspaceSession) (command : WorkspaceCommand)
    (output : WorkspaceOutput) (after : WorkspaceSession) : Prop where
  revision :
    (¬before.Touches command after ∧ before.graph.matchesExactly after.graph = true ∧
        after.revision = before.revision) ∨
      (before.Touches command after ∧ before.revision < after.revision)
  reports : output.reportsNoChange = true → after.revision = before.revision
  commits : ∀ commitId receipt, retires commitId command = false →
    before.workspace.graphCommits[commitId]? = some receipt →
    after.workspace.graphCommits[commitId]? = some receipt

variable {before : WorkspaceSession} {command : WorkspaceCommand} {output : WorkspaceOutput}

theorem stepEffect_of_graphEffect {workspace : DockWorkspace}
    {prepared : List DockWorkspacePreparedGraphCommit}
    (hinstalls : before.installsGraph command = false)
    (heffect : GraphEffect before.workspace workspace) (hreports : output.reportsNoChange = true →
      workspace.graphRevision = before.workspace.graphRevision) :
    StepEffect before command output ⟨workspace, prepared⟩ := by
  refine ⟨?_, hreports, ?_⟩
  · simp only [Touches, hinstalls, Bool.false_eq_true, false_or]
    rcases heffect.revision with ⟨hmatch, heq⟩ | ⟨hmatch, hlt⟩
    · exact .inl ⟨by simp only [graph, hmatch, Bool.true_eq_false, not_false_eq_true], hmatch, heq⟩
    · exact .inr ⟨hmatch, hlt⟩
  · intro commitId receipt _ hget
    rw [← hget, heffect.commits]

variable {after : WorkspaceSession}

theorem resume_eq_some {α : Type} {self : WorkspaceSession} {output : α → WorkspaceOutput}
    {result : Option (α × DockWorkspace)} {produced : WorkspaceOutput}
    (h : self.resume output result = some (produced, after)) :
    ∃ value workspace, result = some (value, workspace) ∧ produced = output value ∧
      after = ⟨workspace, self.prepared⟩ := by
  simp only [resume, Option.map_eq_some_iff, Prod.mk.injEq] at h
  obtain ⟨⟨value, workspace⟩, hresult, rfl, rfl⟩ := h
  exact ⟨value, workspace, hresult, rfl, rfl⟩

theorem stepEffect_of_sound {transaction : DockWorkspace.Transaction}
    (hinstalls : before.installsGraph command = false)
    (hsound : DockWorkspace.Sound before.workspace transaction)
    (h : before.resume .transacted transaction = some (output, after)) :
    StepEffect before command output after := by
  obtain ⟨result, workspace, hresult, rfl, rfl⟩ := resume_eq_some h
  obtain ⟨heffect, hunchanged⟩ := hsound result workspace hresult
  refine stepEffect_of_graphEffect hinstalls heffect fun hreports => hunchanged ?_
  cases result with
  | error error => cases hreports
  | ok outcome =>
    cases outcome with
    | changed => cases hreports
    | unchanged => rfl

/-- A step that installs a graph moves the revision on and keeps the other commits. -/
theorem stepEffect_of_install (hinstalls : before.installsGraph command = true)
    (hrevision : after.revision = before.revision + 1) (hreports : output.reportsNoChange = false)
    (hcommits : ∀ (commitId : DockWorkspaceGraphCommitId) receipt,
      before.workspace.graphCommits[commitId]? = some receipt →
      after.workspace.graphCommits[commitId]? = some receipt) :
    StepEffect before command output after := by
  refine ⟨.inr ⟨.inl hinstalls, by omega⟩, ?_, fun commitId receipt _ => hcommits _ _⟩
  intro htrue
  rw [hreports] at htrue
  cases htrue

theorem get_insert_of_absent {commits : KeyMap Nat DockWorkspaceGraphCommitReceipt}
    {fresh commitId : Nat} {receipt other : DockWorkspaceGraphCommitReceipt}
    (habsent : commits[fresh]? = none) (hget : commits[commitId]? = some other) :
    (commits.insert fresh receipt)[commitId]? = some other := by
  rw [KeyMap.get_insert, if_neg, hget]
  rintro rfl
  rw [habsent] at hget
  cases hget

theorem stepEffect (hkeep : before.keepsSelectionStamps command = true)
    (h : before.step command = some (output, after)) :
    StepEffect before command output after := by
  cases command with
  | applyOp op =>
    obtain ⟨result, workspace, hresult, rfl, rfl⟩ := resume_eq_some h
    refine stepEffect_of_graphEffect rfl (DockWorkspace.applyOpChecked_effect hresult (by
        simpa [keepsSelectionStamps, graph] using hkeep)) fun hreports => ?_
    cases result with
    | error error => cases hreports
    | ok changed =>
      cases changed with
      | true => cases hreports
      | false => exact DockWorkspace.applyOpChecked_reports hresult
  | setGraph graph =>
    simp only [step] at h
    obtain ⟨result, workspace, hresult, rfl, rfl⟩ := resume_eq_some h
    simp only [DockWorkspace.setGraph, Option.map_eq_some_iff, Prod.mk.injEq] at hresult
    obtain ⟨replaced, hreplaced, -, rfl⟩ := hresult
    have heq := DockWorkspace.replaceGraph_eq_some hreplaced
    subst heq
    exact stepEffect_of_install rfl rfl rfl fun _ _ hget => hget
  | allocateGraphCommitId =>
    obtain ⟨id, workspace, hresult, rfl, rfl⟩ := resume_eq_some h
    simp only [DockWorkspace.allocateGraphCommitId, Option.bind_eq_bind,
      Option.bind_eq_some_iff, Option.some.injEq, Prod.mk.injEq] at hresult
    obtain ⟨generation, -, -, rfl⟩ := hresult
    exact stepEffect_of_graphEffect rfl
      ⟨rfl, .inl ⟨DockGraph.matchesExactly_refl _, rfl⟩⟩ fun _ => rfl
  | commitOrReplayGraph commitId expectedGraph projectedGraph =>
    obtain ⟨result, workspace, hresult, rfl, rfl⟩ := resume_eq_some h
    simp only [DockWorkspace.commitOrReplayGraph] at hresult
    cases hget : before.workspace.graphCommits[commitId]? with
    | some receipt =>
      rw [hget] at hresult
      cases hresult
      exact stepEffect_of_graphEffect (by simp [installsGraph, contains_eq_isSome_getElem?, hget])
        (GraphEffect.refl _) fun _ => rfl
    | none =>
      rw [hget] at hresult
      cases hmatch : before.workspace.graph.matchesExactly expectedGraph with
      | false =>
        rw [hmatch] at hresult
        cases hresult
        exact stepEffect_of_graphEffect (by simp [installsGraph, graph, hmatch])
          (GraphEffect.refl _) fun _ => rfl
      | true =>
        simp only [hmatch, Bool.not_true, Bool.false_eq_true, if_false, Option.bind_eq_bind,
          Option.bind_eq_some_iff, Option.some.injEq, Prod.mk.injEq] at hresult
        obtain ⟨⟨receipt, recorded⟩, hrecord, -, rfl⟩ := hresult
        obtain ⟨-, heq⟩ := DockWorkspace.recordGraphCommit_eq_some hrecord
        subst heq
        exact stepEffect_of_install
          (by simp [installsGraph, graph, contains_eq_isSome_getElem?, hget,
              hmatch]) rfl rfl fun _ _ hother => get_insert_of_absent hget hother
  | prepareGraphCommit commitId projectedGraph =>
    simp only [step, Option.some.injEq] at h
    simp only [prepareGraphCommit] at h
    split at h
    · cases h
      exact stepEffect_of_graphEffect rfl (GraphEffect.refl _) fun _ => rfl
    · cases h
      exact stepEffect_of_graphEffect rfl (GraphEffect.refl _) fun _ => rfl
  | commitPreparedGraph held =>
    simp only [step, commitPreparedGraph, Option.bind_eq_bind, Option.bind_eq_some_iff,
      Option.some.injEq, Prod.mk.injEq] at h
    obtain ⟨prepared, -, ⟨receipt, workspace⟩, hcommit, rfl, rfl⟩ := h
    simp only [DockWorkspace.commitPreparedGraph] at hcommit
    split at hcommit
    · cases hcommit
    · next hcan =>
      obtain ⟨-, heq⟩ := DockWorkspace.recordGraphCommit_eq_some hcommit
      simp only [DockWorkspace.canCommitPreparedGraph, Bool.not_eq_true', Bool.not_eq_false,
        Bool.and_eq_true, contains_eq_isSome_getElem?, Option.isSome_eq_false_iff,
        Option.isNone_iff_eq_none] at hcan
      subst heq
      exact stepEffect_of_install rfl rfl rfl fun _ _ hother =>
        get_insert_of_absent hcan.2 hother
  | observeGraphCommit receipt =>
    cases h
    exact stepEffect_of_graphEffect rfl (GraphEffect.refl _) fun _ => rfl
  | retireGraphCommit receipt =>
    cases h
    refine ⟨.inl ⟨?_, DockGraph.matchesExactly_refl _, rfl⟩, fun _ => rfl, ?_⟩
    · have hmatch := DockGraph.matchesExactly_refl before.workspace.graph
      simp [Touches, installsGraph, graph, DockWorkspace.retireGraphCommit, hmatch]
    · intro commitId other hretires hget
      simp only [retires, beq_eq_false_iff_ne, ne_eq] at hretires
      simp only [DockWorkspace.retireGraphCommit]
      rw [KeyMap.get_erase, if_neg hretires, hget]
  | allocateLockedPayloadDropCommitId =>
    obtain ⟨id, workspace, hresult, rfl, rfl⟩ := resume_eq_some h
    simp only [DockWorkspace.allocateLockedPayloadDropCommitId, Option.bind_eq_bind,
      Option.bind_eq_some_iff, Option.some.injEq, Prod.mk.injEq] at hresult
    obtain ⟨generation, -, -, rfl⟩ := hresult
    exact stepEffect_of_graphEffect rfl
      ⟨rfl, .inl ⟨DockGraph.matchesExactly_refl _, rfl⟩⟩ fun _ => rfl
  | commitOrReplayLockedPayloadDrop commitId expectedGraph projectedGraph outcome =>
    obtain ⟨result, workspace, hresult, rfl, rfl⟩ := resume_eq_some h
    simp only [DockWorkspace.commitOrReplayLockedPayloadDrop] at hresult
    cases hget : before.workspace.lockedPayloadDropCommits[commitId]? with
    | some receipt =>
      rw [hget] at hresult
      cases hresult
      exact stepEffect_of_graphEffect (by simp [installsGraph, contains_eq_isSome_getElem?, hget])
        (GraphEffect.refl _) fun _ => rfl
    | none =>
      rw [hget] at hresult
      cases hmatch : before.workspace.graph.matchesExactly expectedGraph with
      | false =>
        rw [hmatch] at hresult
        cases hresult
        exact stepEffect_of_graphEffect (by simp [installsGraph, graph, hmatch])
          (GraphEffect.refl _) fun _ => rfl
      | true =>
        simp only [hmatch, Bool.not_true, Bool.false_eq_true, if_false, Option.bind_eq_bind,
          Option.bind_eq_some_iff, Option.some.injEq, Prod.mk.injEq] at hresult
        obtain ⟨replaced, hreplaced, -, rfl⟩ := hresult
        have heq := DockWorkspace.replaceGraph_eq_some hreplaced
        subst heq
        exact stepEffect_of_install
          (by simp [installsGraph, graph, contains_eq_isSome_getElem?, hget,
              hmatch]) rfl rfl fun _ _ hother => hother
  | retireLockedPayloadDropCommit receipt =>
    cases h
    exact stepEffect_of_graphEffect rfl
      ⟨rfl, .inl ⟨DockGraph.matchesExactly_refl _, rfl⟩⟩ fun _ => rfl
  | closeItem rules space item =>
    exact stepEffect_of_sound rfl (DockWorkspace.sound_commitCloseItem _ _ _ _) h
  | openItem rules space targetTabs item insertIndex
  | openPanelAtPlacement rules space item placement =>
    exact stepEffect_of_sound rfl (DockWorkspace.sound_commitOpenItem _ _ _ _ _ _) h
  | mergeSpaceInto sourceSpace targetSpace target =>
    exact stepEffect_of_sound rfl
      (DockWorkspace.sound_commitPrevalidatedMergeSpaceIntoTarget _ _ _ _) h

/-- Every step of the run keeps the selection stamps it does not report. -/
abbrev KeepsStampsAlong (commands : List WorkspaceCommand) : Prop :=
  workspaceMachine.Along (fun session command => session.keepsSelectionStamps command = true)
    self commands

variable {first last : WorkspaceSession} {commands : List WorkspaceCommand}

variable (hkeep : first.KeepsStampsAlong commands)

include hkeep

section

variable (hrun : workspaceMachine.run first commands = some last)

include hrun

/-- The revision never decreases along a run, and it stays the same exactly when no
step changed or replaced the graph. -/
theorem run_revision : first.revision ≤ last.revision ∧
      (last.revision = first.revision ↔ workspaceMachine.Along LeavesGraph first commands) := by
  induction commands generalizing first with
  | nil =>
    obtain rfl : first = last := by simpa using hrun
    exact ⟨le_refl _, by simp [Machine.Along]⟩
  | cons command commands ih =>
    obtain ⟨output, next, hstep, hrest⟩ := Machine.run_cons_eq_some.mp hrun
    obtain ⟨hle, hiff⟩ := ih (hkeep.2 output next hstep) hrest
    rcases (stepEffect hkeep.1 hstep).revision with ⟨huntouched, -, heq⟩ | ⟨htouched, hlt⟩
    · rw [heq] at hle hiff
      refine ⟨hle, hiff.trans ?_⟩
      constructor
      · intro halong
        refine ⟨?_, ?_⟩
        · intro output' next' hstep'
          obtain ⟨rfl, rfl⟩ : output = output' ∧ next = next' := by
            simpa using hstep.symm.trans hstep'
          exact huntouched
        · intro output' next' hstep'
          obtain ⟨rfl, rfl⟩ : output = output' ∧ next = next' := by
            simpa using hstep.symm.trans hstep'
          exact halong
      · intro halong
        exact halong.2 output next hstep
    · refine ⟨by omega, ?_⟩
      constructor
      · intro heq
        omega
      · intro halong
        exact absurd htouched (halong.1 output next hstep)

/-- Along a run that ends in the revision it started from, the graph matches exactly. -/
theorem run_matchesExactly (hrevision : last.revision = first.revision) :
    first.graph.matchesExactly last.graph = true := by
  induction commands generalizing first with
  | nil =>
    obtain rfl : first = last := by simpa using hrun
    exact DockGraph.matchesExactly_refl _
  | cons command commands ih =>
    obtain ⟨output, next, hstep, hrest⟩ := Machine.run_cons_eq_some.mp hrun
    have hle := (run_revision (hkeep.2 output next hstep) hrest).1
    rcases (stepEffect hkeep.1 hstep).revision with ⟨-, hmatch, heq⟩ | ⟨-, hlt⟩
    · exact DockGraph.matchesExactly_trans hmatch
        (ih (hkeep.2 output next hstep) hrest (hrevision.trans heq.symm))
    · omega

end

/-- A remembered commit stays remembered until it is retired. -/
theorem run_graphCommit
    {commitId : DockWorkspaceGraphCommitId} {receipt : DockWorkspaceGraphCommitReceipt}
    (hretires : ∀ command ∈ commands, retires commitId command = false)
    (hrun : workspaceMachine.run first commands = some last)
    (hget : first.workspace.graphCommits[commitId]? = some receipt) :
    last.workspace.graphCommits[commitId]? = some receipt := by
  induction commands generalizing first with
  | nil =>
    obtain rfl : first = last := by simpa using hrun
    exact hget
  | cons command commands ih =>
    obtain ⟨output, next, hstep, hrest⟩ := Machine.run_cons_eq_some.mp hrun
    have hnext := (stepEffect hkeep.1 hstep).commits commitId receipt
      (hretires command List.mem_cons_self) hget
    exact ih (hkeep.2 output next hstep)
      (fun other hother => hretires other (List.mem_cons_of_mem _ hother)) hrest hnext

end WorkspaceSession

/-! ## Revisions name graphs -/

namespace DockGraph

/-- The fractions and coordinates that a graph holds. -/
def scalars (self : DockGraph) : List Scalar :=
  (self.nodes.toList.flatMap fun entry =>
    match entry.2 with
    | .split _ _ fractions => fractions
    | .tabs _ _ | .floating _ => [])
  ++ self.floatings.toList.flatMap fun entry => entry.2.flatMap fun container =>
    [container.bounds.origin.x, container.bounds.origin.y, container.bounds.size.width,
      container.bounds.size.height]

/-- The exact match over floats, of which some are not numbers: no graph that holds such a
scalar matches anything, itself included. -/
def matchesExactlyOver (isNan : Scalar → Bool) (self other : DockGraph) : Bool :=
  self.matchesExactly other && !self.scalars.any isNan

end DockGraph

/-- In the run of these commands, moments with one revision have exactly matching
graphs, and a step that reports no change leaves an exactly matching graph. -/
structure RevisionsAuthoritative (isNan : Scalar → Bool) (start : WorkspaceSession)
    (commands : List WorkspaceCommand) : Prop where
  same_revision : ∀ first second rest earlier later, commands = first ++ (second ++ rest) →
    workspaceMachine.run start first = some earlier →
    workspaceMachine.run earlier second = some later →
    earlier.revision = later.revision → earlier.graph.matchesExactlyOver isNan later.graph = true
  no_change : ∀ first command rest earlier output later, commands = first ++ command :: rest →
    workspaceMachine.run start first = some earlier →
    workspaceMachine.step earlier command = some (output, later) →
    output.reportsNoChange = true → earlier.graph.matchesExactlyOver isNan later.graph = true

/-- No graph that the workspace holds in the run has a scalar that is not a number. -/
def WorkspaceSession.HoldsNumbers (isNan : Scalar → Bool) (start : WorkspaceSession)
    (commands : List WorkspaceCommand) : Prop :=
  ∀ first rest state, commands = first ++ rest → workspaceMachine.run start first = some state →
    state.graph.scalars.any isNan = false

theorem graph_revisions_authoritative (isNan : Scalar → Bool) (start : WorkspaceSession)
    (commands : List WorkspaceCommand) (hkeep : start.KeepsStampsAlong commands)
    (hnumbers : start.HoldsNumbers isNan commands) :
    RevisionsAuthoritative isNan start commands := by
  constructor
  · rintro first second rest earlier later rfl hfirst hsecond hrevision
    have hkeep' := Machine.along_left (Machine.along_append hkeep hfirst)
    have hmatch := WorkspaceSession.run_matchesExactly hkeep' hsecond hrevision.symm
    simp [DockGraph.matchesExactlyOver, hmatch, hnumbers first _ earlier rfl hfirst]
  · rintro first command rest earlier output later rfl hfirst hstep hreports
    have hkeep' := Machine.along_append hkeep hfirst
    have heffect := WorkspaceSession.stepEffect hkeep'.1 hstep
    rcases heffect.revision with ⟨-, hmatch, -⟩ | ⟨-, hlt⟩
    · simp [DockGraph.matchesExactlyOver, hmatch, hnumbers first _ earlier rfl hfirst]
    · have heq := heffect.reports hreports
      omega

namespace WorkspaceWitness

/-- One stack with two tabs, the first of them selected. -/
def stackGraph : DockGraph :=
  let (tabs, graph) := DockGraph.new.insertNode (.tabs ["a", "b"] (some "a"))
  graph.setRoot "main" tabs

def session : WorkspaceSession := .start (.new stackGraph)

/-- Selects the other tab, replaces the graph, and commits a third one. -/
def commands : List WorkspaceCommand :=
  [.applyOp (.selectTab 0 "b"), .setGraph stackGraph,
    .commitOrReplayGraph 1 stackGraph DockGraph.new, .observeGraphCommit ⟨1, 3⟩]

theorem commands_keepStamps : session.KeepsStampsAlong commands :=
  Machine.holdsAlong_iff.mp (by decide)

end WorkspaceWitness

theorem graph_revisions_authoritative_commands :
    RevisionsAuthoritative (fun _ => false) WorkspaceWitness.session WorkspaceWitness.commands :=
  graph_revisions_authoritative _ _ _ WorkspaceWitness.commands_keepStamps
    fun _ _ _ _ _ => by simp

/-- Selecting the selected tab records a stamp and reports no change. -/
theorem graph_revisions_not_authoritative_reselect :
    ¬RevisionsAuthoritative (fun _ => false) WorkspaceWitness.session
      [.applyOp (.selectTab 0 "a")] := by
  intro h
  have hstep : ∃ later, workspaceMachine.step WorkspaceWitness.session
      (.applyOp (.selectTab 0 "a")) = some (.applied (.ok false), later) ∧
      WorkspaceWitness.session.graph.matchesExactly later.graph = false :=
    ⟨_, rfl, by decide⟩
  obtain ⟨later, hstep, hdiffers⟩ := hstep
  have hmatch := h.no_change [] _ [] _ _ later rfl rfl hstep rfl
  simp [DockGraph.matchesExactlyOver, hdiffers] at hmatch

/-! ## Commits apply once and observations are safe against returning graphs -/

namespace WorkspaceSession

variable {receipt : DockWorkspaceGraphCommitReceipt}

variable {self : WorkspaceSession} {commitId : DockWorkspaceGraphCommitId}

section

variable (hget : self.workspace.graphCommits[commitId]? = some receipt)

include hget

theorem step_commitOrReplayGraph_of_get (expectedGraph projectedGraph : DockGraph) :
    self.step (.commitOrReplayGraph commitId expectedGraph projectedGraph) =
      some (.committed (some receipt), self) := by
  simp only [step, DockWorkspace.commitOrReplayGraph, hget, resume, Option.map_some]

theorem step_prepareGraphCommit_of_get (projectedGraph : DockGraph) :
    self.step (.prepareGraphCommit commitId projectedGraph) =
      some (.prepared (.alreadyCommitted receipt), self) := by
  simp only [step, prepareGraphCommit, DockWorkspace.prepareGraphCommit, hget]

end

variable {prepared : DockWorkspacePreparedGraphCommit}

theorem step_commitPreparedGraph_of_get
    {held : Nat} (hget : self.workspace.graphCommits[prepared.commitId]? = some receipt)
    (hheld : self.prepared[held]? = some prepared) :
    self.step (.commitPreparedGraph held) = none := by
  have hcan : self.workspace.canCommitPreparedGraph prepared = false := by
    rw [DockWorkspace.canCommitPreparedGraph, contains_eq_isSome_getElem?, hget]
    exact Bool.and_false _
  simp only [step, commitPreparedGraph, hheld, DockWorkspace.commitPreparedGraph, hcan,
    Bool.not_false, if_true, Option.bind_eq_bind, Option.bind_some, Option.bind_none]

/-- A commit that installs its graph leaves its receipt behind, stamped with the new
revision. -/
theorem step_committed {earlier committed : WorkspaceSession} {command : WorkspaceCommand}
    (hinstalls : earlier.installsGraph command = true)
    (h : earlier.step command = some (.committed (some receipt), committed)) :
    committed.workspace.graphCommits[receipt.commitId]? = some receipt ∧
      committed.revision = receipt.graphRevision := by
  have hrecord : ∀ {workspace : DockWorkspace} {commitId projectedGraph},
      earlier.workspace.recordGraphCommit commitId projectedGraph = some (receipt, workspace) →
      workspace.graphCommits[receipt.commitId]? = some receipt ∧
        workspace.graphRevision = receipt.graphRevision := by
    intro workspace commitId projectedGraph hworkspace
    obtain ⟨hreceipt, rfl⟩ := DockWorkspace.recordGraphCommit_eq_some hworkspace
    refine ⟨?_, by rw [hreceipt]⟩
    have hid : commitId = receipt.commitId := by rw [hreceipt]
    rw [KeyMap.get_insert, if_pos hid]
  cases command with
  | commitOrReplayGraph commitId expectedGraph projectedGraph =>
    obtain ⟨result, workspace, hresult, hproduced, rfl⟩ := resume_eq_some h
    obtain rfl : some receipt = result := by simpa using hproduced
    simp only [DockWorkspace.commitOrReplayGraph] at hresult
    have habsent : earlier.workspace.graphCommits[commitId]? = none := by
      rw [installsGraph, contains_eq_isSome_getElem?, Bool.and_eq_true] at hinstalls
      simpa only [Bool.not_eq_true', Option.isSome_eq_false_iff, Option.isNone_iff_eq_none]
        using hinstalls.1
    rw [habsent] at hresult
    simp only at hresult
    split at hresult
    · cases hresult
    · simp only [Option.bind_eq_bind, Option.bind_eq_some_iff, Option.some.injEq,
        Prod.mk.injEq] at hresult
      obtain ⟨⟨recorded, workspace'⟩, hworkspace, hreceipt, rfl⟩ := hresult
      obtain rfl : recorded = receipt := hreceipt
      exact hrecord hworkspace
  | commitPreparedGraph held =>
    simp only [step, commitPreparedGraph, Option.bind_eq_bind, Option.bind_eq_some_iff,
      Option.some.injEq, Prod.mk.injEq, WorkspaceOutput.committed.injEq] at h
    obtain ⟨prepared, -, ⟨recorded, workspace⟩, hcommit, hreceipt, rfl⟩ := h
    obtain rfl : recorded = receipt := hreceipt
    simp only [DockWorkspace.commitPreparedGraph] at hcommit
    split at hcommit
    · cases hcommit
    · exact hrecord hcommit
  | setGraph graph =>
    simp only [step] at h
    obtain ⟨_, _, _, hproduced, -⟩ := resume_eq_some h
    cases hproduced
  | commitOrReplayLockedPayloadDrop commitId expectedGraph projectedGraph outcome =>
    obtain ⟨_, _, _, hproduced, -⟩ := resume_eq_some h
    cases hproduced
  | _ => cases hinstalls

/-- Preparing reads the revision the commit will be checked against. -/
theorem step_prepared {earlier ready : WorkspaceSession} {projectedGraph : DockGraph}
    (h : earlier.step (.prepareGraphCommit commitId projectedGraph) =
      some (.prepared (.prepared prepared), ready)) :
    prepared.expectedRevision = ready.revision := by
  simp only [step, prepareGraphCommit, Option.some.injEq] at h
  simp only [DockWorkspace.prepareGraphCommit] at h
  cases hget : earlier.workspace.graphCommits[commitId]? with
  | some receipt =>
    rw [hget] at h
    simp only [Prod.mk.injEq] at h
    cases h.1
  | none =>
    rw [hget] at h
    obtain ⟨rfl, rfl⟩ := h
    rfl

end WorkspaceSession

/-- In the run of these commands a remembered commit only replays its receipt, its
observation is exact as long as nothing touched the graph, and a prepared commit
is accepted only when nothing touched the graph since it was prepared. -/
structure CommitsExactlyOnce (start : WorkspaceSession)
    (commands : List WorkspaceCommand) : Prop where
  replays : ∀ first second rest earlier later commitId receipt,
    commands = first ++ (second ++ rest) →
    workspaceMachine.run start first = some earlier →
    earlier.workspace.graphCommits[commitId]? = some receipt →
    workspaceMachine.run earlier second = some later →
    (∀ command ∈ second, WorkspaceSession.retires commitId command = false) →
    (∀ expectedGraph projectedGraph,
        workspaceMachine.step later (.commitOrReplayGraph commitId expectedGraph projectedGraph) =
          some (.committed (some receipt), later)) ∧
      (∀ projectedGraph, workspaceMachine.step later (.prepareGraphCommit commitId projectedGraph) =
          some (.prepared (.alreadyCommitted receipt), later)) ∧
      ∀ held prepared, later.prepared[held]? = some prepared → prepared.commitId = commitId →
        workspaceMachine.step later (.commitPreparedGraph held) = none
  observes : ∀ first command second rest earlier committed later receipt,
    commands = first ++ command :: (second ++ rest) →
    workspaceMachine.run start first = some earlier →
    earlier.installsGraph command = true →
    workspaceMachine.step earlier command = some (.committed (some receipt), committed) →
    workspaceMachine.run committed second = some later →
    (∀ other ∈ second, WorkspaceSession.retires receipt.commitId other = false) →
    (later.workspace.observeGraphCommit receipt = some .exact ↔
      workspaceMachine.Along WorkspaceSession.LeavesGraph committed second)
  accepts : ∀ first second rest earlier ready later commitId projectedGraph prepared,
    commands = first ++ .prepareGraphCommit commitId projectedGraph :: (second ++ rest) →
    workspaceMachine.run start first = some earlier →
    workspaceMachine.step earlier (.prepareGraphCommit commitId projectedGraph) =
      some (.prepared (.prepared prepared), ready) →
    workspaceMachine.run ready second = some later →
    later.workspace.canCommitPreparedGraph prepared = true →
    workspaceMachine.Along WorkspaceSession.LeavesGraph ready second

theorem graph_commits_exactly_once (start : WorkspaceSession)
    (commands : List WorkspaceCommand) (hkeep : start.KeepsStampsAlong commands) :
    CommitsExactlyOnce start commands := by
  constructor
  · rintro first second rest earlier later commitId receipt rfl hfirst hget hsecond hretires
    have hkeep' := Machine.along_left (Machine.along_append hkeep hfirst)
    have hlater := WorkspaceSession.run_graphCommit hkeep' hretires hsecond hget
    refine ⟨WorkspaceSession.step_commitOrReplayGraph_of_get hlater,
      WorkspaceSession.step_prepareGraphCommit_of_get hlater, ?_⟩
    rintro held prepared hheld rfl
    exact WorkspaceSession.step_commitPreparedGraph_of_get hlater hheld
  · rintro first command second rest earlier committed later receipt rfl hfirst hinstalls hstep
      hsecond hretires
    have hkeep' := (Machine.along_append hkeep hfirst).2 _ _ hstep
    have hkeep'' := Machine.along_left hkeep'
    obtain ⟨hreceipt, hrevision⟩ := WorkspaceSession.step_committed hinstalls hstep
    have hlater := WorkspaceSession.run_graphCommit hkeep'' hretires hsecond hreceipt
    rw [← (WorkspaceSession.run_revision hkeep'' hsecond).2, hrevision]
    simp only [DockWorkspace.observeGraphCommit, hlater, ne_eq, not_true_eq_false, if_false]
    change (if later.revision = receipt.graphRevision then _ else _) = _ ↔ _
    split
    · next heq => simp [heq]
    · next hne => simp [hne]
  · rintro first second rest earlier ready later commitId projectedGraph prepared rfl hfirst
      hstep hsecond hcan
    have hkeep' := (Machine.along_append hkeep hfirst).2 _ _ hstep
    have hkeep'' := Machine.along_left hkeep'
    rw [← (WorkspaceSession.run_revision hkeep'' hsecond).2, ← WorkspaceSession.step_prepared hstep]
    simp only [DockWorkspace.canCommitPreparedGraph, Bool.and_eq_true, beq_iff_eq] at hcan
    exact hcan.1

theorem graph_commits_exactly_once_commands :
    CommitsExactlyOnce WorkspaceWitness.session WorkspaceWitness.commands :=
  graph_commits_exactly_once _ _ WorkspaceWitness.commands_keepStamps

/-- A prepared commit stays acceptable across a recorded selection, which it then
overwrites. -/
theorem graph_commits_not_exactly_once_reselect : ¬CommitsExactlyOnce WorkspaceWitness.session
      [.prepareGraphCommit 1 DockGraph.new, .applyOp (.selectTab 0 "a")] := by
  intro h
  have halong := h.accepts [] [.applyOp (.selectTab 0 "a")] [] _ _ _ 1 DockGraph.new _ rfl rfl
    rfl rfl (by decide)
  have htouches := halong.1 _ _ rfl
  exact htouches (Or.inr (by decide))

end OpenGpui.Docking
