/-
Merging two spaces of a workspace, as a transaction of one or two commits: an error leaves
the workspace as it was, and a merge that goes through brings over every item.
-/
import OpenGpui.Docking.MergeRefines
import OpenGpui.Docking.WorkspaceProtocol

namespace OpenGpui.Docking

open DockTree DockForest DockGraph DockGraph.Holds Option List Function SpaceTrees

namespace DockGraph

variable {self : DockGraph} {forest : DockForest} {source target space : DockSpaceId}

/-- The space has this stack, with these items. -/
def HasStack (self : DockGraph) (space : DockSpaceId) (tabs : DockNodeId)
    (items : List DockItemId) : Prop :=
  (self.rootForNodeInSpace space tabs).isSome = true ∧
    ∃ selected, self.nodes.get tabs = some (.tabs items selected)

variable {tabs : DockNodeId}

theorem Holds.hasStack_iff (h : self.Holds forest) {items : List DockItemId} :
    self.HasStack space tabs items ↔ (tabs, items) ∈ (forest space).leaves := by
  rw [HasStack, h.rootForNodeInSpace_isSome_iff, SpaceTrees.mem_leaves_iff]
  constructor
  · rintro ⟨hmem, selected, hget⟩
    exact ⟨selected, h.tabs_mem hmem hget⟩
  · rintro ⟨selected, hsub⟩
    exact ⟨mem_ids_iff.mpr ⟨_, hsub, rfl⟩, selected, h.get hsub⟩

/-- Everything in the source space went over to the target space, and each of its stacks
kept its items together and in order. -/
structure SpacesMerged (before after : DockGraph) (source target : DockSpaceId) : Prop where
  emptied : after.collectItemsInSpace source = []
  union : (after.collectItemsInSpace target).Perm
    (before.collectItemsInSpace target ++ before.collectItemsInSpace source)
  kept : ∀ tabs items, before.HasStack source tabs items →
    ∃ later laterItems, after.HasStack target later laterItems ∧ items <:+: laterItems

/-- Stacks of a well-formed forest hold items. -/
theorem leaf_ne_nil (hvalid : forest.Valid) {entry : Leaf}
    (hentry : entry ∈ (forest space).leaves) : entry.2 ≠ [] := by
  obtain ⟨selected, hsub⟩ := mem_leaves_iff.mp hentry
  obtain ⟨tree, htree, hmem⟩ := mem_flatMap.mp hsub
  rcases mem_append.mp htree with hroot | hfloating
  · exact (hvalid.root space tree (mem_toList.mp hroot) _ hmem).1
  · obtain ⟨low, hlow, rfl⟩ := mem_map.mp hfloating
    exact ((hvalid.floatings space low hlow).tree _ hmem).1

/-- Once nothing is left in the source space, what passed is all there was. -/
theorem Holds.spacesMerged {after : DockGraph} {last : DockForest} (h : self.Holds forest)
    (hvalid : forest.Valid) (h' : after.Holds last) (hpasses : forest.Passes last source target)
    (hroot : (last source).root = none) (hfloatings : (last source).floatings = []) :
    self.SpacesMerged after source target := by
  have htrees : (last source).trees = [] := by
    rw [trees, hroot, hfloatings]
    rfl
  have hitems : (last source).items = [] := by
    rw [SpaceTrees.items, htrees, flatMap_nil]
  constructor
  · rw [h'.collectItemsInSpace_eq, hitems]
  · rw [h'.collectItemsInSpace_eq, h.collectItemsInSpace_eq, h.collectItemsInSpace_eq]
    have hperm := hpasses.items
    rwa [hitems, append_nil] at hperm
  · intro tabs items hstack
    have hentry := h.hasStack_iff.mp hstack
    rcases hpasses.stays _ hentry (leaf_ne_nil hvalid hentry) with hstays | hcarries
    · rw [SpaceTrees.leaves, htrees] at hstays
      cases hstays
    · obtain ⟨kept, hkept, hinfix⟩ := hcarries
      exact ⟨kept.1, kept.2, h'.hasStack_iff.mpr hkept, hinfix⟩

/-- A stack listed below the root of a space has a place there. -/
theorem Holds.mem_rootTabsInSpace (h : self.Holds forest)
    (htabs : tabs ∈ self.rootTabsInSpace space) :
    ∃ items selected, .tabs tabs items selected ∈ (forest space).subtrees := by
  rw [rootTabsInSpace, h.root] at htabs
  cases hroot : (forest space).root with
  | none =>
    rw [hroot] at htabs
    cases htabs
  | some tree =>
    have hmem : tree ∈ (forest space).trees := by simp [trees, hroot]
    have hstored := h.stored space tree hmem
    rw [hroot, map_some] at htabs
    simp only at htabs
    rw [self.collectTabsInSubtreeInto_eq hstored
      (self.ids_length_le_fuel hstored (h.tree_nodup hmem))] at htabs
    obtain ⟨entry, hentry, rfl⟩ := mem_map.mp htabs
    obtain ⟨selected, hsub⟩ := mem_leaves_iff.mp hentry
    exact ⟨entry.2, selected, mem_flatMap.mpr ⟨tree, hmem, hsub⟩⟩

end DockGraph

namespace DockWorkspace

variable {self after : DockWorkspace} {forest : DockForest} {source target : DockSpaceId}
  {result : Except DockActionApplyError DockActionOutcome}

/-- A merge under way: the graph is valid, and what has left the source space has reached
the target space. -/
structure Merging (forest : DockForest) (source target : DockSpaceId) (graph : DockGraph)
    (now : DockForest) : Prop where
  holds : graph.Holds now
  valid : now.Valid
  passes : forest.Passes now source target

/-- A merge either changes nothing and reports an error, or gets as far as `Done`. -/
def Lands (self : DockWorkspace) (forest : DockForest) (source target : DockSpaceId)
    (Done : DockForest → Prop) (result : Except DockActionApplyError DockActionOutcome)
    (after : DockWorkspace) : Prop :=
  (∃ error, result = .error error ∧ after = self) ∨
    ∃ outcome now, result = .ok outcome ∧ Merging forest source target after.graph now ∧ Done now

variable {Done : DockForest → Prop}

theorem Lands.mono {More : DockForest → Prop} (h : self.Lands forest source target Done
    result after) (hmore : ∀ now, Done now → More now) :
    self.Lands forest source target More result after := by
  rcases h with herror | ⟨outcome, now, hresult, hmerging, hdone⟩
  · exact .inl herror
  · exact .inr ⟨outcome, now, hresult, hmerging, hmore now hdone⟩

theorem lands_error {error : DockActionApplyError}
    (h : some (Except.error error, self) = some (result, after)) :
    self.Lands forest source target Done result after := by
  cases h
  exact .inl ⟨error, rfl, rfl⟩

variable {next : DockGraph}

theorem commitMergedGraph_of_valid {op : String}
    (hvalid : next.validate = .ok ()) (h : self.commitMergedGraph op next = some (result, after)) :
    result = .ok .changed ∧ after.graph = next := by
  simp only [commitMergedGraph, hvalid, setGraph, bind_eq_bind, bind_eq_some_iff,
    some.injEq, Prod.mk.injEq] at h
  obtain ⟨replaced, hreplaced, rfl, rfl⟩ := h
  exact ⟨rfl, by rw [replaceGraph_eq_some hreplaced]⟩

/-- A merged graph is installed when it is valid. -/
theorem commitMergedGraph_lands {op : String} {now : DockForest}
    (hnext : next.Holds now) (hpasses : forest.Passes now source target)
    (h : self.commitMergedGraph op next = some (result, after)) :
    self.Lands forest source target (· = now) result after := by
  cases hvalid : next.validate with
  | error error =>
    rw [commitMergedGraph, hvalid] at h
    exact lands_error h
  | ok _ =>
    obtain ⟨rfl, hgraph⟩ := commitMergedGraph_of_valid hvalid h
    refine .inr ⟨.changed, now, rfl, ⟨?_, hnext.valid_iff.mp hvalid, hpasses⟩, rfl⟩
    rw [hgraph]
    exact hnext

/-- The containers always go over. -/
theorem commitMergeSpaceFloatingForestInto_lands (hholds : self.graph.Holds forest)
    (hvalid : forest.Valid) (hne : source ≠ target)
    (h : self.commitMergeSpaceFloatingForestInto source target = some (result, after)) :
    ∃ outcome now, result = .ok outcome ∧ Merging forest source target after.graph now ∧
      (now source).floatings = [] ∧ ((forest source).root = none → (now source).root = none) := by
  rw [commitMergeSpaceFloatingForestInto] at h
  rcases hmerge : self.graph.mergeSpaceFloatingForestInto source target with ⟨changed, next⟩
  rw [hmerge] at h
  rcases hholds.mergeSpaceFloatingForestInto hne hmerge with ⟨rfl, hnone⟩ | ⟨rfl, hnext⟩
  · cases h
    exact ⟨.unchanged, forest, rfl, ⟨hholds, hvalid, .refl forest source target⟩, hnone, id⟩
  · have hmoved := ((hvalid.moveFloatings hne).simplifySpace source).simplifySpace target
    have hpasses : forest.Passes _ source target := (passes_moveFloatings hne).simplifySpaces
    -- the merged forest is valid, so validation cannot refuse it
    obtain ⟨rfl, hgraph⟩ := commitMergedGraph_of_valid (hnext.validate_complete hmoved) h
    refine ⟨.changed, _, rfl, ⟨?_, hmoved, hpasses⟩, ?_, fun hroot => ?_⟩
    · rw [hgraph]
      exact hnext
    · rw [DockForest.simplifySpace, update_of_ne hne, DockForest.simplifySpace,
        update_self, moveFloatings_source hne]
      rfl
    · apply simplifySpace_root_eq_none
      apply simplifySpace_root_eq_none
      rwa [moveFloatings_source hne]

/-- After the root has gone over or stayed, the containers follow. -/
theorem thenMergeFloatingForest_lands {first : Transaction}
    (hne : source ≠ target) (hfirst : ∀ result after, first = some (result, after) →
      self.Lands forest source target Done result after)
    (hdone : ∀ now, Done now → (now source).root = none)
    (h : thenMergeFloatingForest first source target = some (result, after)) :
    self.Lands forest source target
      (fun now => (now source).floatings = [] ∧ (now source).root = none) result after := by
  simp only [thenMergeFloatingForest, bind_eq_bind, bind_eq_some_iff] at h
  obtain ⟨⟨rootResult, middle⟩, hmiddle, h⟩ := h
  rcases hfirst _ _ hmiddle with ⟨error, rfl, rfl⟩ | ⟨outcome, now, rfl, hmerging, hnow⟩
  · exact lands_error h
  · simp only [bind_eq_some_iff] at h
    obtain ⟨⟨forestResult, last⟩, hforest, h⟩ := h
    obtain ⟨second, later, rfl, hlater, hfloatings, hroot⟩ :=
      commitMergeSpaceFloatingForestInto_lands hmerging.holds hmerging.valid hne hforest
    obtain ⟨rfl, rfl⟩ := h
    exact .inr ⟨_, later, rfl, ⟨hlater.holds, hlater.valid, hmerging.passes.trans hlater.passes⟩,
      hfloatings, hroot (hdone now hnow)⟩

section

variable (hholds : self.graph.Holds forest)

include hholds

theorem commitMergeSpaceRootIntoEmptySpace_lands
    (hne : source ≠ target) {tree : DockTree} (htree : (forest source).root = some tree)
    (hroot : (forest target).root = none)
    (h : self.commitMergeSpaceRootIntoEmptySpace source target = some (result, after)) :
    self.Lands forest source target (fun now => (now source).root = none) result after := by
  rw [commitMergeSpaceRootIntoEmptySpace] at h
  cases hempty : self.validateMergeRootIntoEmptySpace source target with
  | error error =>
    rw [hempty] at h
    exact lands_error h
  | ok _ =>
    have hfloatings : (forest target).floatings = [] := by
      rw [validateMergeRootIntoEmptySpace, hholds.floatings] at hempty
      split at hempty
      · cases hempty
      · next hcontainers => simpa using hcontainers
    obtain ⟨next, hmove, hnext⟩ := hholds.moveRootToEmptySpace hne htree hroot hfloatings
    rw [hempty, hmove] at h
    refine (commitMergedGraph_lands hnext
      (passes_moveRoot hne htree hroot).simplifySpaces h).mono ?_
    rintro now rfl
    apply simplifySpace_root_eq_none
    apply simplifySpace_root_eq_none
    rw [DockForest.placeRoot, update_of_ne hne, DockForest.removeRoot, update_self]

variable {targetTabs : Option DockNodeId}

/-- The stack a merge is aimed at has a place in the target space. -/
theorem mergeTargetTabs_ok
    {tabs : DockNodeId} (h : self.mergeTargetTabs target targetTabs = .ok tabs) :
    ∃ items selected, .tabs tabs items selected ∈ (forest target).subtrees := by
  cases targetTabs with
  | none =>
    rw [mergeTargetTabs, uniqueMergeTargetTabs] at h
    split at h
    · next hunique =>
      cases h
      exact hholds.mem_rootTabsInSpace (hunique ▸ mem_singleton_self tabs)
    · cases h
  | some explicit =>
    rw [mergeTargetTabs, Checked.bind_eq_ok] at h
    obtain ⟨_, hcheck, heq⟩ := h
    cases heq
    rw [validateExplicitMergeTargetTabs] at hcheck
    split at hcheck
    · next items selected hget =>
      split at hcheck
      · cases hcheck
      · next hfound =>
        have hmem := mem_ids_of_rootForNode hholds hfound
        exact ⟨items, selected, hholds.tabs_mem hmem hget⟩
    · cases hcheck
    · cases hcheck

/-- The source space is merged into an occupied target space. -/
theorem moveRootToNonEmptySpace_cases (hvalid : forest.Valid)
    (hne : source ≠ target) {tree root : DockTree} (htree : (forest source).root = some tree)
    (hroot : (forest target).root = some root)
    (hpayload : self.validateNonEmptyMergePayload source target = .ok ())
    {targetTabs : DockNodeId} {own : List DockItemId} {ownSelected : Option DockItemId}
    (htarget : .tabs targetTabs own ownSelected ∈ (forest target).subtrees) :
    (∃ id child, tree = .floating id child ∧
        self.graph.moveRootToNonEmptySpace source target targetTabs = (false, self.graph)) ∨
      ∃ next now, self.graph.moveRootToNonEmptySpace source target targetTabs = (true, next) ∧
        next.Holds now ∧ forest.Passes now source target ∧ (now source).root = none := by
  have hsource : self.graph.root source = some tree.id := by
    rw [hholds.root, htree, map_some]
  have hoccupied : self.graph.root target = some root.id := by
    rw [hholds.root, hroot, map_some]
  have hmem : tree ∈ (forest source).trees := by simp [trees, htree]
  have hget := hholds.get (tree_mem_subtrees hmem)
  cases tree with
  | tabs id items selected =>
    have hitems : items ≠ [] := (hvalid.root source _ htree _ (mem_subtrees_self _)).1
    obtain ⟨nextSelected, next, hmove, hnext⟩ :=
      hholds.moveRootTabs hvalid.items hne htree hitems htarget
    refine .inr ⟨next, _, ?_, hnext, (passes_moveRootTabs hholds.proper hne htree
      htarget nextSelected).simplifySpaces, ?_⟩
    · simp only [moveRootToNonEmptySpace, hne, hsource, hoccupied, hget, DockTree.node,
        isNone_some, Bool.false_eq_true, if_false]
      exact hmove
    · apply simplifySpace_root_eq_none
      apply simplifySpace_root_eq_none
      simp [DockForest.setTabs, DockForest.rewrite, DockForest.removeRoot, SpaceTrees.rewrite,
        SpaceTrees.mapTrees]
  | floating id child =>
    rw [id_floating] at hget hsource
    refine .inl ⟨id, child, rfl, ?_⟩
    simp [moveRootToNonEmptySpace, hne, hsource, hoccupied, hget, DockTree.node]
  | split id axis kids fractions =>
    rw [id_split] at hget hsource
    have hvisible : self.graph.isVisibleSplitPayload id = true := by
      simp [isVisibleSplitPayload, DockGraph.fuel, isVisibleSplitPayloadWithin, hget, DockTree.node]
    simp [validateNonEmptyMergePayload, hsource, hoccupied, hvisible] at hpayload

/-- A merge brings over the containers, and the root unless a floating root meets an
occupied target space. -/
theorem commitMergeSpaceIntoTargetWithPolicy_lands (hvalid : forest.Valid) (hne : source ≠ target)
    (h : self.commitMergeSpaceIntoTargetWithPolicy source target targetTabs =
      some (result, after)) :
    self.Lands forest source target (fun now => (now source).floatings = [] ∧
      ((∀ id child, (forest source).root = some (.floating id child) →
        (forest target).root = none) → (now source).root = none)) result after := by
  have hfloatings : ∀ {Stuck : Prop}, (Stuck → (forest source).root = none) →
      self.commitMergeSpaceFloatingForestInto source target = some (result, after) →
      self.Lands forest source target (fun now => (now source).floatings = [] ∧
        (Stuck → (now source).root = none)) result after := by
    intro Stuck hstuck hmerge
    obtain ⟨outcome, now, rfl, hmerging, hnone, hroot⟩ :=
      commitMergeSpaceFloatingForestInto_lands hholds hvalid hne hmerge
    exact .inr ⟨outcome, now, rfl, hmerging, hnone, fun hstay => hroot (hstuck hstay)⟩
  rw [commitMergeSpaceIntoTargetWithPolicy] at h
  cases hcheck : self.validateMergeSpaceIntoTarget source target targetTabs with
  | error error =>
    rw [hcheck] at h
    exact lands_error h
  | ok _ =>
    simp only [hcheck, if_neg hne] at h
    cases htree : (forest source).root with
    | none =>
      rw [if_pos ((hholds.rootTabsInSpace_isEmpty_iff hvalid).mpr htree)] at h
      exact hfloatings (fun _ => htree) h
    | some tree =>
      rw [if_neg (by rw [hholds.rootTabsInSpace_isEmpty_iff hvalid, htree]; simp),
        hholds.root target] at h
      cases hroot : (forest target).root with
      | none =>
        simp only [hroot, map_none, isNone_none, if_true] at h
        exact (thenMergeFloatingForest_lands hne
          (fun _ _ => commitMergeSpaceRootIntoEmptySpace_lands hholds hne htree hroot)
          (fun _ => id) h).mono fun now hnow => ⟨hnow.1, fun _ => hnow.2⟩
      | some root =>
        simp only [hroot, map_some, isNone_some, Bool.false_eq_true, if_false] at h
        cases hpayload : self.validateNonEmptyMergePayload source target with
        | error error =>
          rw [hpayload] at h
          exact lands_error h
        | ok _ =>
          simp only [hpayload] at h
          cases htabs : self.mergeTargetTabs target targetTabs with
          | error error =>
            rw [htabs] at h
            exact lands_error h
          | ok tabs =>
            obtain ⟨own, ownSelected, hsub⟩ := mergeTargetTabs_ok hholds htabs
            simp only [htabs] at h
            have hcases := moveRootToNonEmptySpace_cases hholds hvalid hne htree hroot hpayload hsub
            rcases hcases with
              ⟨id, child, rfl, hmove⟩ | ⟨next, now, hmove, hnext, hpasses, hgone⟩
            · rw [hmove] at h
              refine hfloatings (fun hstay => ?_) h
              have hnone := hstay id child rfl
              cases hnone
            · rw [hmove] at h
              exact (thenMergeFloatingForest_lands hne
                (fun _ _ hmerged => (commitMergedGraph_lands hnext hpasses hmerged).mono
                  fun _ heq => heq ▸ hgone)
                (fun _ => id) h).mono fun later hlater => ⟨hlater.1, fun _ => hlater.2⟩

end

/-- Merging two spaces of a valid graph brings every item of the source space over and keeps
its stacks in order, unless a floating root meets an occupied target space; a merge that
fails leaves the workspace as it was, and a space is not merged into itself. -/
theorem merge_spaces_keeps_items {merge : DockMergeBackTarget}
    (hvalid : self.graph.validate = .ok ())
    (h : self.commitPrevalidatedMergeSpaceIntoTarget source target merge = some (result, after)) :
    (∀ outcome, result = .ok outcome → source ≠ target →
      (∀ root child, self.graph.root source = some root → self.graph.root target ≠ none →
        self.graph.node root ≠ some (.floating child)) →
      self.graph.SpacesMerged after.graph source target)
    ∧ (source = target → result = .ok .unchanged ∧ after = self)
    ∧ (∀ error, result = .error error → after = self) := by
  obtain ⟨forest, hholds, hforest⟩ := validate_ok_iff.mp hvalid
  by_cases hne : source = target
  · rw [commitPrevalidatedMergeSpaceIntoTarget.eq_def, if_pos hne] at h
    cases h
    exact ⟨fun _ _ hdifferent => absurd hne hdifferent, fun _ => ⟨rfl, rfl⟩, fun _ _ => rfl⟩
  · have hlands : self.Lands forest source target (fun now => (now source).floatings = [] ∧
        ((∀ id child, (forest source).root = some (.floating id child) →
          (forest target).root = none) → (now source).root = none)) result after := by
      rw [commitPrevalidatedMergeSpaceIntoTarget.eq_def, if_neg hne] at h
      split at h
      · cases merge with
        | spaceOnly => exact lands_error h
        | tabs targetTabs =>
          exact commitMergeSpaceIntoTargetWithPolicy_lands hholds hforest hne h
      · cases merge with
        | spaceOnly => exact commitMergeSpaceIntoTargetWithPolicy_lands hholds hforest hne h
        | tabs targetTabs => exact lands_error h
    rcases hlands with ⟨error, rfl, rfl⟩ | ⟨outcome, now, rfl, hmerging, hfloatings, hroot⟩
    · exact ⟨fun _ hok => (nomatch hok), fun heq => absurd heq hne, fun _ _ => rfl⟩
    · refine ⟨fun _ _ _ hapart => ?_, fun heq => absurd heq hne, fun _ herror => nomatch herror⟩
      apply hholds.spacesMerged hforest hmerging.holds hmerging.passes _ hfloatings
      apply hroot
      intro id child htree
      by_contra hoccupied
      have hmem : .floating id child ∈ (forest source).trees := by
        simp [trees, htree]
      apply hapart id child.id
      · rw [hholds.root, htree]
        rfl
      · rw [hholds.root]
        simpa using hoccupied
      · exact hholds.get (tree_mem_subtrees hmem)

end DockWorkspace

namespace WorkspaceMergeWitness

/-- A space with a stack and a floating stack, and a space with one stack. -/
def twoSpaces : DockWorkspace :=
  let (main, graph) := DockGraph.new.insertNode (.tabs ["a", "b"] (some "a"))
  let (side, graph) := graph.insertNode (.tabs ["c"] (some "c"))
  let (low, graph) := graph.insertNode (.tabs ["d"] (some "d"))
  let graph := graph.pushFloating "main" low ⟨⟨0, 0⟩, ⟨10, 10⟩⟩
  .new ((graph.setRoot "main" main).setRoot "side" side)

def goesThrough : DockWorkspace.Transaction → Bool
  | some (.ok _, _) => true
  | _ => false

theorem exists_of_goesThrough {transaction : DockWorkspace.Transaction}
    (h : goesThrough transaction = true) :
    ∃ outcome after, transaction = some (.ok outcome, after) := by
  rcases transaction with _ | ⟨error | outcome, after⟩
  · cases h
  · cases h
  · exact ⟨outcome, after, rfl⟩

end WorkspaceMergeWitness

open WorkspaceMergeWitness in
theorem merge_spaces_keeps_items_two_spaces :
    ∃ outcome after, twoSpaces.commitPrevalidatedMergeSpaceIntoTarget "main" "side" (.tabs 1) =
        some (.ok outcome, after) ∧
      twoSpaces.graph.SpacesMerged after.graph "main" "side" := by
  have hthrough : goesThrough
      (twoSpaces.commitPrevalidatedMergeSpaceIntoTarget "main" "side" (.tabs 1)) = true := by
    decide
  obtain ⟨outcome, after, hmerge⟩ := exists_of_goesThrough hthrough
  have hvalid : twoSpaces.graph.validate = .ok () := by decide
  have hroot : twoSpaces.graph.root "main" = some 0 := by decide
  have hnode : twoSpaces.graph.node 0 = some (.tabs ["a", "b"] (some "a")) := by decide
  refine ⟨outcome, after, hmerge,
    (DockWorkspace.merge_spaces_keeps_items hvalid hmerge).1 outcome rfl (by decide) ?_⟩
  intro root child heq _ hfloating
  rw [hroot] at heq
  cases heq
  rw [hnode] at hfloating
  cases hfloating

open WorkspaceMergeWitness in
/-- Merging a space into itself goes through and leaves its items where they are. -/
theorem merge_into_itself_keeps_items : twoSpaces.graph.validate = .ok () ∧ ∃ after,
      twoSpaces.commitPrevalidatedMergeSpaceIntoTarget "main" "main" .spaceOnly =
        some (.ok .unchanged, after) ∧
      after.graph.collectItemsInSpace "main" ≠ [] :=
  ⟨by decide, twoSpaces, rfl, by decide⟩

end OpenGpui.Docking
