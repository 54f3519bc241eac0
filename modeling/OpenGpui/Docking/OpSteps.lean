/-
The moves of whole stacks and containers, and the operations that move nothing; together
with the moves of single items every operation of a graph is a step of its forest.
-/
import OpenGpui.Docking.OpRefines

namespace OpenGpui.Docking.DockGraph

open DockTree Checked DockForest DockGraph Option UiCore List SpaceTrees DockForest.Step

variable {self after next : DockGraph} {forest : DockForest} {space source target : DockSpaceId}

section Tabs

variable {tabs : DockNodeId} (h : self.Holds forest)

include h

/-- Putting taken items into a stack. -/
theorem Holds.putItems (hvalid : forest.Valid)
    {items : List DockItemId} {taken : DockForest} (hdetach : forest.Detach source items taken)
    (htaken : after.Holds taken) (hmem : tabs ∈ (taken target).ids) {own : List DockItemId}
    {selected : Option DockItemId} (hget : after.nodes.get tabs = some (.tabs own selected))
    (hne : items ≠ []) (hnodup : items.Nodup) (index : Option Nat)
    (selectedInGroup : Option DockItemId) {payload : DockTree} (hpayload : payload.items = items) :
    ∃ put last, after.insertItemsIntoTabsAt tabs items index selectedInGroup = (true, last) ∧
      taken.Attach target payload put ∧ last.Holds put := by
  have hsub := htaken.tabs_mem hmem hget
  obtain ⟨merged, nextSelected, last, hinsert, hmerged, hholds⟩ :=
    htaken.insertItemsIntoTabsAt hsub hne hnodup
      (fun item hitem => Detach.not_mem_leaf hdetach h.proper hvalid.items hsub hitem) index
      selectedInGroup
  rw [← hpayload] at hmerged
  exact ⟨_, last, hinsert, DockForest.Attach.merge nextSelected hsub hmerged, hholds⟩

/-- Taking a stack and inserting it again leaves it beside the forest. -/
theorem Holds.detachTabs {detached : DetachedTabs}
    (htake : self.takeTabsFromSpace source tabs = some (detached, after)) :
    ∃ items selected taken inserted, forest.Detach source items taken ∧
      after.insertDetachedTabs detached = (after.nodes.next, inserted) ∧
      inserted.Holds (taken.simplifySpaces [source]) ∧ inserted.Detached
        (taken.simplifySpaces [source]) (.tabs after.nodes.next items selected) := by
  obtain ⟨items, selected, history, taken, middle, -, -, htaken, rfl, rfl⟩ :=
    h.takeTabsFromSpace htake
  obtain ⟨inserted, hinsert, hheld, hdetached, -⟩ :=
    (htaken.holds.simplifySpaceStructure source).insertDetachedTabs ⟨items, selected, history⟩
  exact ⟨items, selected, taken, inserted, htaken.detach, hinsert, hheld, hdetached⟩

variable {dropTarget : DockGraphDropTarget}

theorem moveTabsIntoTabs_step (hvalid : forest.Valid)
    {targetTabs : DockNodeId} {insertIndex : Option Nat}
    (hop : self.moveTabsIntoTabs source tabs target targetTabs insertIndex = (true, next)) :
    ∃ after, forest.Step (.moveTabs source tabs target dropTarget) after ∧ next.Holds after := by
  rw [moveTabsIntoTabs] at hop
  obtain ⟨hapart, hop⟩ := of_guard hop
  obtain ⟨hfound, hop⟩ := of_guard hop
  obtain ⟨htabsNode, hop⟩ := of_guard hop
  split at hop
  · cases hop
  · next detached removed htake =>
    obtain ⟨items, selected, history, taken, middle, hsub, hne, htaken, rfl, rfl⟩ :=
      h.takeTabsFromSpace htake
    have hmem := mem_ids_of_rootForNode h hfound
    have hother : targetTabs ≠ tabs := by
      rintro rfl
      have hspace := h.apart (mem_ids_iff.mpr ⟨_, hsub, rfl⟩) hmem
      exact hapart ⟨hspace, rfl⟩
    obtain ⟨own, ownSelected, hget⟩ := isTabsNode_iff.mp (by simpa using htabsNode)
    rw [← htaken.frame _ hother.symm] at hget
    have hleaf : forest.HasLeaf (tabs, items) := hasLeaf_iff.mpr ⟨source, selected, hsub⟩
    obtain ⟨put, last, hinsert, hattach, hlast⟩ :=
      h.putItems hvalid htaken.detach htaken.holds (htaken.kept _ _ hmem hother) hget hne
        (hvalid.items.leaf_nodup hleaf) insertIndex selected (items_tabs tabs items selected)
    simp only [hinsert] at hop
    cases hop
    exact ⟨_, Step.afterMove rfl htaken.detach (items_tabs _ _ _) hattach,
      hlast.simplifySpacesAfterMove source target⟩

/-- A plan that docks at a node docks inside the space. -/
theorem Holds.wrapTarget_mem {key new : DockNodeId} {axis : SplitAxis}
    {zone : DropZone} {sizing : DockEdgeDockSizing}
    (happly : self.applyEdgeDockPlan space (.wrapTarget key axis zone sizing) new = (true, after)) :
    key ∈ (forest space).ids :=
  (h.insertNode _).mem_of_replaceNodeInSpaceTree happly

theorem moveTabs_step (hvalid : forest.Valid)
    (hvalidate : self.validateGraphDropTarget target dropTarget = .ok ())
    (hop : self.moveTabsBetweenSpaces source tabs target dropTarget = (true, next)) :
    ∃ after, forest.Step (.moveTabs source tabs target dropTarget) after ∧ next.Holds after := by
  cases dropTarget with
  | center targetTabs | tabBar targetTabs insertIndex => exact moveTabsIntoTabs_step h hvalid hop
  | edge plan =>
    simp only [moveTabsBetweenSpaces] at hop
    split at hop
    · cases hop
    · next detached removed htake =>
      obtain ⟨items, selected, history, taken, middle, hsub, hne, htaken, rfl, rfl⟩ :=
        h.takeTabsFromSpace htake
      obtain ⟨inserted, hinsert, hheld, hdetached, hkept⟩ :=
        htaken.holds.insertDetachedTabs ⟨items, selected, history⟩
      simp only [hinsert] at hop
      have hfits := h.planFits_of_target hvalidate
      have hsplits : ∀ key axis children fractions, self.nodes.get key = some (.split axis children
          fractions) → inserted.nodes.get key = some (.split axis children fractions) := by
        intro key axis children fractions hget
        apply hkept
        rw [htaken.frame, hget]
        rintro rfl
        rw [h.get_tabs hsub] at hget
        cases hget
      split at hop
      · cases hop
      · next last happly =>
        have htarget : plan.targetNode ∈ (taken target).ids := by
          cases plan with
          | insertIntoSplit split zone anchorChild anchorIndex insertIndex sizing scope =>
            apply htaken.kept _ _ hfits.target
            rintro rfl
            obtain ⟨axis, children, fractions, hget, _⟩ := hfits.split rfl
            simp only [DockEdgeDockPlan.targetNode] at hsub
            rw [h.get_tabs hsub] at hget
            cases hget
          | wrapTarget key axis zone sizing => exact hheld.wrapTarget_mem happly
        obtain ⟨put, docked, hdock, hattach, hdocked⟩ :=
          hheld.dockTree (hfits.transfer htarget hsplits) hdetached
        rw [id_tabs, happly] at hdock
        cases hdock
        cases hop
        exact ⟨_, Step.afterMove rfl htaken.detach (items_tabs _ _ _) hattach,
          hdocked.simplifySpacesAfterMove source target⟩
  | emptySpace =>
    simp only [moveTabsBetweenSpaces] at hop
    obtain ⟨hempty, hop⟩ := of_guard hop
    have hroot := root_eq_none_of_empty h hempty
    rw [moveTabsToEmptySpace] at hop
    split at hop
    · cases hop
    · next detached removed htake =>
      obtain ⟨items, selected, taken, inserted, hdetach, hinsert, hheld, hdetached⟩ :=
        h.detachTabs htake
      simp only [hinsert, Prod.mk.injEq, true_and] at hop
      have hplaced := hheld.setRootForEmptySpace hdetached target
      have hrootNow : ((taken.simplifySpaces [source]) target).root = none :=
        DockForest.simplifySpace_root_eq_none (hdetach.root_eq_none hroot)
      rw [← hop]
      exact ⟨_, move [source] [target] rfl hdetach (items_tabs _ _ _)
        (.root hrootNow) (by simp) (by simp) (by simp) (by simp),
        hplaced.simplifySpaceStructure target⟩

variable {bounds : Bounds}

theorem floatTabs_step (hop : self.floatTabsInWindow source tabs target bounds = (true, next)) :
    ∃ after, forest.Step (.floatTabsInWindow source tabs target bounds) after ∧
      next.Holds after := by
  rw [floatTabsInWindow] at hop
  split at hop
  · cases hop
  · next detached removed htake =>
    obtain ⟨items, selected, taken, inserted, hdetach, hinsert, hheld, hdetached⟩ :=
      h.detachTabs htake
    simp only [hinsert, Prod.mk.injEq, true_and] at hop
    have hfloated := hheld.pushFloating hdetached target bounds
    rw [← hop]
    exact ⟨_, move [source] [target] rfl hdetach (items_tabs _ _ _)
      (.float _ bounds) (by simp) (by simp) (by simp) (by simp),
      hfloated.simplifySpaceStructure target⟩

theorem floatItem_step {item : DockItemId}
    (hop : self.floatItemInWindow source item target bounds = (true, next)) :
    ∃ after, forest.Step (.floatItemInWindow source item target bounds) after ∧
      next.Holds after := by
  rw [floatItemInWindow] at hop
  split at hop
  · cases hop
  · next sourceTabs sourceIndex hfind =>
    obtain ⟨items, selected, nextSelected, removed, hsub, hremove, hdetach, hholds, _⟩ :=
      h.takeItem hfind
    simp only [hremove, Prod.mk.injEq, true_and] at hop
    have hfloated := (hholds.insertNode (.tabs [item] (some item))).pushFloating
      (hholds.insertTabs [item] (some item)) target bounds
    rw [← hop]
    exact ⟨_, move [] [source, target] rfl (hdetach nextSelected)
      (items_tabs _ _ _) (.float _ bounds) (by simp) (by simp)
      (fun space hspace => nomatch hspace) (by simp),
      (hfloated.simplifySpaceStructure source).simplifySpaceStructure target⟩

end Tabs

section Floating

variable {floating : DockNodeId}

section

variable (h : self.Holds forest)

include h

variable {bounds : Bounds}

/-- Taking a container leaves every node outside it. -/
theorem Holds.mem_of_floatingTaken {index : Nat} {tree : DockTree}
    (hentry : (forest space).floatings[index]? = some ⟨.floating floating tree, bounds⟩)
    {other : DockSpaceId} {key : DockNodeId} (hkey : key ∈ (forest other).ids)
    (hnot : ¬ (space = other ∧ self.subtreeContains floating key = true)) :
    key ∈ (forest.setFloatings space ((forest space).floatings.eraseIdx index) other).ids := by
  by_cases hother : other = space
  · subst hother
    obtain ⟨hlt, hget⟩ := List.getElem?_eq_some_iff.mp hentry
    have htop : DockTree.floating floating tree ∈ (forest other).trees := by
      apply mem_append_right
      exact mem_map.mpr ⟨_, mem_of_getElem? hentry, rfl⟩
    have houtside : key ∉ (DockTree.floating floating tree).ids := fun hin =>
      hnot ⟨rfl, (h.subtreeContains_iff (Holds.tree_mem_subtrees htop) key).mpr hin⟩
    have hperm := (getElem_cons_eraseIdx_perm hlt).symm.map FloatingTree.tree
    rw [hget, map_cons] at hperm
    rw [setFloatings, Function.update_self]
    simp only [SpaceTrees.ids, SpaceTrees.trees, flatMap_append, mem_append] at hkey ⊢
    rcases hkey with hroot | hfloat
    · exact .inl hroot
    · rw [(hperm.flatMap_right DockTree.ids).mem_iff, flatMap_cons, mem_append] at hfloat
      exact .inr (hfloat.resolve_left houtside)
  · rwa [setFloatings, Function.update_of_ne hother]

variable {dropTarget : DockGraphDropTarget}

theorem mergeFloatingTabs_step (hvalid : forest.Valid)
    {child targetTabs : DockNodeId} {insertIndex : Option Nat}
    (hchild : self.nodes.get floating = some (.floating child))
    (hmem : targetTabs ∈ (forest target).ids)
    (hnot : ¬ (source = target ∧ self.subtreeContains floating targetTabs = true))
    (hop : self.mergeFloatingTabsIntoTabs source floating child target targetTabs insertIndex =
      (true, next)) :
    ∃ after, forest.Step (.moveFloating source floating target dropTarget) after ∧
      next.Holds after := by
  rw [mergeFloatingTabsIntoTabs] at hop
  obtain ⟨htabsNode, hop⟩ := of_guard hop
  split at hop
  · next items selected hitems =>
    obtain ⟨hempty, hop⟩ := of_guard hop
    split at hop
    · cases hop
    · next taken removed htake =>
      obtain ⟨index, tree, bounds, hentry, hid, hheld, _, hnodes⟩ :=
        h.takeFloatingChildFromSpace htake
      obtain ⟨own, ownSelected, hget⟩ := isTabsNode_iff.mp (by simpa using htabsNode)
      rw [← hnodes] at hget
      -- the child of the container is the stack that is merged
      have htop : DockTree.floating floating tree ∈ (forest source).subtrees := by
        apply Holds.tree_mem_subtrees
        apply mem_append_right
        exact mem_map.mpr ⟨_, mem_of_getElem? hentry, rfl⟩
      have hsame : tree.id = child := by
        have hnode := h.get htop
        rw [id_floating, hchild] at hnode
        cases hnode
        rfl
      have hlow : tree ∈ (forest source).subtrees := by
        obtain ⟨owner, howner, hin⟩ := mem_flatMap.mp htop
        exact mem_flatMap.mpr ⟨owner, howner,
          mem_subtrees_trans hin (child_mem_subtrees (mem_singleton_self tree))⟩
      have htree : tree = .tabs child items selected := by
        have hstack := h.tabs_mem (mem_ids_iff.mpr ⟨tree, hlow, hsame⟩) hitems
        exact (h.sub_unique hlow hstack hsame).2
      subst htree
      have hleaf : forest.HasLeaf (child, items) := hasLeaf_iff.mpr ⟨source, selected, hlow⟩
      have hdetach := DockForest.Detach.floating hentry
      rw [items_tabs] at hdetach
      obtain ⟨put, last, hinsert, hattach, hlast⟩ :=
        h.putItems hvalid hdetach hheld (h.mem_of_floatingTaken hentry hmem hnot) hget
          (by simpa using hempty) (hvalid.items.leaf_nodup hleaf) insertIndex
          (self.selectedItemInTabs child) (items_tabs child items selected)
      simp only [hinsert] at hop
      cases hop
      exact ⟨_, Step.afterMove rfl hdetach (items_tabs _ _ _) hattach,
        hlast.simplifySpacesAfterMove source target⟩
  · cases hop

theorem moveFloating_step (hvalid : forest.Valid)
    (hvalidate : self.validateGraphDropTarget target dropTarget = .ok ())
    (hop : self.moveFloatingBetweenSpaces source floating target dropTarget = (true, next)) :
    ∃ after, forest.Step (.moveFloating source floating target dropTarget) after ∧
      next.Holds after := by
  rw [moveFloatingBetweenSpaces.eq_def] at hop
  obtain ⟨_, hop⟩ := of_guard hop
  obtain ⟨hrejects, hop⟩ := of_guard hop
  have hplace : ∀ key, dropTarget.existingNode = some key → key ∈ (forest target).ids ∧
        ¬ (source = target ∧ self.subtreeContains floating key = true) := by
    intro key hkey
    simp only [rejectsFloatingTarget, hkey, Bool.or_eq_true, Bool.and_eq_true,
      decide_eq_true_eq, not_or] at hrejects
    exact ⟨mem_ids_of_rootForNode h hrejects.1, hrejects.2⟩
  cases dropTarget with
  | center targetTabs =>
    obtain ⟨hmem, hnot⟩ := hplace targetTabs rfl
    simp only at hop
    split at hop
    · next child hchild =>
      obtain ⟨_, hop⟩ := of_guard hop
      obtain ⟨_, hop⟩ := of_guard hop
      exact mergeFloatingTabs_step h hvalid hchild hmem hnot hop
    · cases hop
  | tabBar targetTabs insertIndex =>
    obtain ⟨hmem, hnot⟩ := hplace targetTabs rfl
    simp only at hop
    split at hop
    · next child hchild =>
      obtain ⟨_, hop⟩ := of_guard hop
      exact mergeFloatingTabs_step h hvalid hchild hmem hnot hop
    · cases hop
  | edge plan =>
    obtain ⟨hmem, hnot⟩ := hplace plan.targetNode rfl
    simp only at hop
    split at hop
    · cases hop
    · next child removed htake =>
      obtain ⟨index, tree, bounds, hentry, rfl, hheld, hdetached, hnodes⟩ :=
        h.takeFloatingChildFromSpace htake
      have hfits := (h.planFits_of_target hvalidate).transfer (h.mem_of_floatingTaken hentry hmem
        hnot) (fun key axis children fractions hget => hnodes ▸ hget)
      obtain ⟨put, docked, happly, hattach, hdocked⟩ := hheld.dockTree hfits hdetached
      simp only [happly] at hop
      cases hop
      exact ⟨_, Step.afterMove rfl (DockForest.Detach.floating hentry) rfl hattach,
        hdocked.simplifySpacesAfterMove source target⟩
  | emptySpace =>
    simp only [moveFloatingToEmptySpace] at hop
    obtain ⟨hempty, hop⟩ := of_guard hop
    have hroot := root_eq_none_of_empty h hempty
    split at hop
    · cases hop
    · next child removed htake =>
      obtain ⟨index, tree, bounds, hentry, rfl, hheld, hdetached, hnodes⟩ :=
        h.takeFloatingChildFromSpace htake
      have hdetach := DockForest.Detach.floating hentry
      cases hop
      exact ⟨_, Step.afterMove rfl hdetach rfl (.root (hdetach.root_eq_none hroot)),
        (hheld.setRootForEmptySpace hdetached target).simplifySpacesAfterMove source target⟩

theorem setFloatingBounds_step (hop : self.setFloatingBounds space floating bounds = (true, next)) :
    ∃ after, forest.Step (.setFloatingBounds space floating bounds) after ∧ next.Holds after := by
  rw [setFloatingBounds] at hop
  split at hop
  · cases hop
  · next containers hcontainers =>
    have hself : self.floatingContainers space = containers := by
      rw [floatingContainers, hcontainers, getD_some]
    split at hop
    · cases hop
    · next index hindex =>
      rw [← hself] at hindex
      obtain ⟨entry, hentry, _, _⟩ := h.findIdx_container hindex
      have hcontainer : containers[index]? = some entry.container := by
        rw [← hself, h.floatings, getElem?_map, hentry]
        rfl
      simp only [hcontainer] at hop
      obtain ⟨_, hop⟩ := of_guard hop
      simp only [Prod.mk.injEq, true_and] at hop
      have hsub : (((forest space).floatings.set index { entry with bounds := bounds }).map
          FloatingTree.tree).Subperm ((forest space).floatings.map FloatingTree.tree) := by
        rw [FloatingTree.map_tree_set hentry]
      have hset := h.setContainers space hsub
      rw [map_set, ← h.floatings, hself] at hset
      rw [← hop]
      exact ⟨_, DockForest.Step.setFloatingBounds hentry, hset⟩

end

theorem moveToEnd_perm {α : Type} (entries : List α) (index : Nat) :
    (moveToEnd entries index).Perm entries := by
  rw [moveToEnd]
  by_cases hlt : index < entries.length
  · rw [getElem?_eq_getElem hlt]
    exact (perm_append_singleton _ _).trans (getElem_cons_eraseIdx_perm hlt)
  · rw [getElem?_eq_none (Nat.le_of_not_lt hlt), toList_none, append_nil,
      eraseIdx_of_length_le (Nat.le_of_not_lt hlt)]

theorem moveToEnd_map {α β : Type} (f : α → β) (entries : List α) (index : Nat) :
    (moveToEnd entries index).map f = moveToEnd (entries.map f) index := by
  rw [moveToEnd, moveToEnd, map_append, eraseIdx_map, getElem?_map, toList_map]

theorem raiseFloating_step (h : self.Holds forest)
    (hop : self.raiseFloating space floating = (true, next)) :
    ∃ after, forest.Step (.raiseFloating space floating) after ∧ next.Holds after := by
  rw [raiseFloating] at hop
  split at hop
  · cases hop
  · next containers hcontainers =>
    have hself : self.floatingContainers space = containers := by
      rw [floatingContainers, hcontainers, getD_some]
    split at hop
    · cases hop
    · next index hindex =>
      obtain ⟨_, hop⟩ := of_guard hop
      simp only [Prod.mk.injEq, true_and] at hop
      have hraised := h.setContainers space
        ((moveToEnd_perm (forest space).floatings index).map FloatingTree.tree).subperm
      rw [moveToEnd_map, ← h.floatings, hself] at hraised
      rw [← hop]
      exact ⟨_, DockForest.Step.raiseFloating, hraised⟩

end Floating

section Resize

variable {changed : Bool}

theorem Holds.updateSplitFractions (h : self.Holds forest) {split : DockNodeId}
    {fractions : List Scalar} (hop : self.updateSplitFractions split fractions = (changed, next)) :
    next.Holds forest ∧ changed = false ∨ ∃ shares, UiCore.Normalized shares ∧
        (∀ space, ∀ sub ∈ (forest space).subtrees, sub.id = split →
          sub.children.length = shares.length) ∧
        next.Holds (forest.setFractions split shares) := by
  rw [DockGraph.updateSplitFractions] at hop
  split at hop
  · next axis children own hget =>
    split at hop
    · cases hop
      exact .inl ⟨h, rfl⟩
    · next hguard =>
      push Not at hguard
      simp only at hop
      split at hop
      · cases hop
        exact .inl ⟨h, rfl⟩
      · cases hop
        have hsplit : ∀ space, ∀ sub ∈ (forest space).subtrees, sub.id = split →
            ∃ kids, sub = .split split axis kids own ∧ children = kids.map DockTree.id := by
          intro space sub hsub hid
          have hnode := h.get hsub
          rw [hid, hget] at hnode
          cases sub with
          | tabs id items selected | floating id child => cases hnode
          | split id ownAxis kids ownFractions =>
            cases hnode
            exact ⟨kids, by rw [← hid, id_split], rfl⟩
        have hne : fractions ≠ [] := by
          rintro rfl
          rw [← hguard.2] at hguard
          exact absurd hguard.1 (by simp)
        have hlen := normalizeSplitFractions_length hne
        refine .inr ⟨normalizeSplitFractions fractions,
          normalizeSplitFractions_normalized fractions, ?_, ?_⟩
        · intro space sub hsub hid
          obtain ⟨kids, rfl, hkids⟩ := hsplit space sub hsub hid
          rw [hlen, hguard.2, hkids, length_map]
          rfl
        · apply h.setNode none
          · intro space sub hsub hid
            obtain ⟨kids, rfl, hkids⟩ := hsplit space sub hsub hid
            refine ⟨rfl, ?_, ?_⟩
            · rw [hkids]
              rfl
            · rw [toList_none, append_nil]
              exact List.Perm.refl _
          · exact fun tree htree => nomatch htree
  · cases hop
    exact .inl ⟨h, rfl⟩

theorem Holds.applySplitFractionUpdates (h : self.Holds forest) (updates : List DockSplitResize) :
    ∃ after, forest.Resizes after ∧ (self.applySplitFractionUpdates updates).2.Holds after := by
  induction updates generalizing self forest with
  | nil => exact ⟨forest, .refl forest, h⟩
  | cons update rest ih =>
    rcases hop : self.updateSplitFractions update.split update.fractions with ⟨changed, middle⟩
    simp only [applySplitFractionUpdates, hop]
    rcases h.updateSplitFractions hop with ⟨hholds, _⟩ | ⟨shares, hshares, hlen, hholds⟩
    · exact ih hholds
    · obtain ⟨after, hresizes, hafter⟩ := ih hholds
      exact ⟨after, .change hshares hlen hresizes, hafter⟩

theorem selectTab_step (h : self.Holds forest) {tabs : DockNodeId} {item : DockItemId}
    {items : List DockItemId} {selected : Option DockItemId}
    (hget : self.nodes.get tabs = some (.tabs items selected)) (hitem : item ∈ items)
    (hop : self.selectTab tabs item = (changed, next)) :
    ∃ after, forest.Step (.selectTab tabs item) after ∧ next.Holds after := by
  have hcontains : items.contains item = true := by simpa using hitem
  simp only [selectTab, hget, hcontains, Bool.not_true, Bool.false_eq_true, if_false,
    Prod.mk.injEq] at hop
  have hrecorded : (self.recordTabSelection tabs item).Holds forest := h.of_eq rfl rfl rfl rfl
  refine ⟨_, DockForest.Step.selectTab hitem ?_, ?_⟩
  · intro space sub hsub hid
    have hstack := h.tabs_mem (mem_ids_iff.mpr ⟨sub, hsub, hid⟩) hget
    exact ⟨selected, (h.sub_unique hsub hstack hid).2⟩
  · rw [← hop.2]
    exact hrecorded.setTabs hget items (some item)

end Resize

/-- Every validated operation that reports a change is a step of the forest. -/
theorem applyOpUnchecked_step (h : self.Holds forest) (hvalid : forest.Valid) {op : DockOp}
    (hvalidate : self.validateOp op = .ok ()) (hop : self.applyOpUnchecked op = (true, next)) :
    ∃ after, forest.Step op after ∧ next.Holds after := by
  cases op with
  | selectTab tabs item =>
    simp only [validateOp, bind_eq_ok] at hvalidate
    obtain ⟨items, hitems, hcontains⟩ := hvalidate
    rw [requireTabsNode] at hitems
    split at hitems
    · next own selected hget =>
      cases hitems
      split at hcontains
      · cases hcontains
      · next hitem => exact selectTab_step h hget (by simpa using hitem) hop
    · cases hitems
    · cases hitems
  | closeItem space item => exact closeItem_step h hop
  | openItem space targetTabs item insertIndex => exact openItem_step h hop
  | moveItem source item target dropTarget =>
    simp only [validateOp, validateMoveItem, guard_eq_ok] at hvalidate
    exact moveItem_step h hvalid hvalidate.2.2 hop
  | moveTabs source tabs target dropTarget =>
    simp only [validateOp, validateMoveTabs, guard_eq_ok, bind_eq_ok] at hvalidate
    obtain ⟨_, _, _, _, _, hdrop⟩ := hvalidate
    exact moveTabs_step h hvalid hdrop hop
  | moveFloating source floating target dropTarget =>
    have hdrop : self.validateGraphDropTarget target dropTarget = .ok () := by
      simp only [validateOp, validateMoveFloating, guard_eq_ok] at hvalidate
      obtain ⟨_, hrest⟩ := hvalidate
      split at hrest
      · cases hrest
      · simp only [guard_eq_ok, bind_eq_ok] at hrest
        exact hrest.2.choose_spec.1
    exact moveFloating_step h hvalid hdrop hop
  | floatItemInWindow source item target bounds => exact floatItem_step h hop
  | floatTabsInWindow source tabs target bounds => exact floatTabs_step h hop
  | setFloatingBounds space floating bounds => exact setFloatingBounds_step h hop
  | raiseFloating space floating => exact raiseFloating_step h hop
  | setSplitFractions split fractions =>
    rcases h.updateSplitFractions hop with ⟨_, hfalse⟩ | ⟨shares, hshares, hlen, hholds⟩
    · cases hfalse
    · exact ⟨_, resize rfl (.change hshares hlen (.refl _)), hholds⟩
  | setSplitFractionsMany updates =>
    obtain ⟨after, hresizes, hafter⟩ := h.applySplitFractionUpdates updates
    rw [applyOpUnchecked] at hop
    rw [hop] at hafter
    exact ⟨after, resize rfl hresizes, hafter⟩

end OpenGpui.Docking.DockGraph
