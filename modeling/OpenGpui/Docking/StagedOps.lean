/-
No operation on the attached trees reaches a staged node: each mutation keeps the fence
around them.
-/
import OpenGpui.Docking.StagedFence

namespace OpenGpui.Docking.DockGraph.Fenced

open Option List DockGraph

variable {original : DockNodes} {staged : DockNodeId → Prop} {self next : DockGraph}
  {space source target : DockSpaceId} {tabs : DockNodeId} {item : DockItemId}

section Stacks

variable (h : Fenced original staged self)

include h

theorem forgetTabSelection (tabs : DockNodeId)
    (item : DockItemId) : Fenced original staged (self.forgetTabSelection tabs item) :=
  h.of_eq (forgetTabSelection_eq _ _ _).1 (forgetTabSelection_eq _ _ _).2.1
    (forgetTabSelection_eq _ _ _).2.2.1

theorem recordTabSelection (tabs : DockNodeId)
    (item : DockItemId) : Fenced original staged (self.recordTabSelection tabs item) :=
  h.of_eq rfl rfl rfl

section

variable (htabs : ¬ staged tabs)

include htabs

theorem removeItemFromTabs {index : Nat} (hop : self.removeItemFromTabs tabs index = (true, next)) :
    Fenced original staged next := by
  rw [DockGraph.removeItemFromTabs] at hop
  split at hop
  · split at hop
    · cases hop
    · cases hop
      exact (h.setTabs htabs _ _).forgetTabSelection tabs _
  · cases hop

theorem selectPreferred (preferred : Option DockItemId) :
    Fenced original staged (self.selectPreferred tabs preferred) := by
  rw [selectPreferred.eq_def]
  split
  · split
    · exact h.setTabs htabs _ _
    · exact h
  · exact h

theorem insertItemIntoTabsAt
    (item : DockItemId) (index : Option Nat) (selectedInGroup : Option DockItemId) :
    Fenced original staged (self.insertItemIntoTabsAt tabs item index selectedInGroup).2 := by
  rw [DockGraph.insertItemIntoTabsAt]
  split
  · exact (h.setTabs htabs _ _).recordTabSelection tabs _
  · exact h

theorem insertItemsIntoTabsAt
    (items : List DockItemId) (index : Option Nat) (selectedInGroup : Option DockItemId) :
    Fenced original staged (self.insertItemsIntoTabsAt tabs items index selectedInGroup).2 := by
  rw [DockGraph.insertItemsIntoTabsAt]
  split
  · exact h
  · split
    · split
      · exact (h.setTabs htabs _ _).recordTabSelection tabs _
      · exact h.setTabs htabs _ _
    · exact h

end

/-- Taking a stack out leaves what is staged alone. -/
theorem takeTabsFromSpaceWithSimplify {simplify : Bool} {detached : DetachedTabs}
    (hop : self.takeTabsFromSpaceWithSimplify space tabs simplify = some (detached, next)) :
    Fenced original staged next := by
  rw [DockGraph.takeTabsFromSpaceWithSimplify] at hop
  split at hop
  · cases hop
  · next hfound =>
    have htabs := h.rootForNodeInSpace hfound
    split at hop
    · split at hop
      · cases hop
      · cases hop
        have hstart : Fenced original staged (self.takeTabSelectionState tabs).2 :=
          h.of_eq rfl rfl rfl
        have hset := hstart.setTabs htabs [] none
        have hrooted : Fenced original staged
            (if ((self.takeTabSelectionState tabs).2.setNode tabs (.tabs [] none)).root space =
                some tabs then
              ((self.takeTabSelectionState tabs).2.setNode tabs (.tabs [] none)).removeRoot space
            else (self.takeTabSelectionState tabs).2.setNode tabs (.tabs [] none)) := by
          split
          · exact hset.removeRoot space
          · exact hset
        split
        · exact hrooted.simplifySpace space
        · exact hrooted
    · cases hop

/-- A new stack is not staged. -/
theorem insertDetachedTabs (detached : DetachedTabs) :
    Fenced original staged (self.insertDetachedTabs detached).2 ∧
      ¬ staged (self.insertDetachedTabs detached).1 := by
  refine ⟨?_, h.nodes.next_not_staged⟩
  have hinsert := h.insertTabs detached.items detached.selected
  simp only [DockGraph.insertDetachedTabs, restoreTabSelectionState]
  split
  · exact hinsert
  · exact hinsert.of_eq rfl rfl rfl

end Stacks

section Docking

variable {old new : DockNodeId}

theorem replaceChildInNode (h : Fenced original staged self) {node : DockNodeId}
    (hnode : ¬ staged node) (hnew : ¬ staged new) :
    Fenced original staged (self.replaceChildInNode node old new).2 := by
  simp only [DockGraph.replaceChildInNode]
  split
  · next hget =>
    split
    · exact h
    · apply h.setNode hnode
      intro child hchild
      rcases mem_or_eq_of_mem_set hchild with hold | rfl
      · exact h.nodes.child hnode hget child hold
      · exact hnew
  · split
    · exact h
    · exact h.setNode hnode (by simpa [DockNode.children] using hnew)
  · exact h
  · exact h

theorem replaceFloatingNode_mem {floatings kept : List DockFloatingContainer}
    (hop : replaceFloatingNode old new floatings = some kept) :
    ∀ container ∈ kept, container.node = new ∨ container ∈ floatings := by
  induction floatings generalizing kept with
  | nil => cases hop
  | cons floating rest ih =>
    rw [replaceFloatingNode] at hop
    split at hop
    · cases hop
      rw [forall_mem_cons]
      exact ⟨.inl rfl, fun container hin => .inr (mem_cons_of_mem _ hin)⟩
    · obtain ⟨below, hbelow, rfl⟩ := map_eq_some_iff.mp hop
      rw [forall_mem_cons]
      exact ⟨.inr mem_cons_self, fun container hin =>
        (ih hbelow container hin).imp_right (mem_cons_of_mem _)⟩

/-- A node that is not staged may stand in for another. -/
theorem replaceNodeInSpaceTree (h : Fenced original staged self) (hnew : ¬ staged new) :
    Fenced original staged (self.replaceNodeInSpaceTree space old new).2 := by
  simp only [DockGraph.replaceNodeInSpaceTree]
  split
  · exact h.setRoot hnew space
  · split
    · next floatings hreplace =>
      obtain ⟨own, hown, hop⟩ := bind_eq_some_iff.mp hreplace
      apply h.setFloatings space
      intro container hcontainer
      rcases replaceFloatingNode_mem hop container hcontainer with heq | hold
      · rw [heq]
        exact hnew
      · apply h.floatings space container
        rwa [floatingContainers, hown]
    · split
      · next parent hparent =>
        obtain ⟨top, htop, hbelow⟩ := exists_of_findSome?_eq_some hparent
        exact h.replaceChildInNode (h.findParentInSubtreeWithin (h.tops top htop) hbelow) hnew
      · exact h

variable {newChild : DockNodeId}

theorem splitShareAndInsert_mem {children kept : List DockNodeId} {fractions shares : List Scalar}
    {anchorIndex insertIndex : Nat} {sizing : DockEdgeDockSizing} {scope : DockEdgeDockSizingScope}
    (hop : splitShareAndInsert children fractions anchorIndex insertIndex newChild sizing scope
      = some (kept, shares)) :
    ∀ child ∈ kept, child = newChild ∨ child ∈ children := by
  rw [splitShareAndInsert] at hop
  split at hop
  · cases hop
  · simp only [some.injEq, Prod.mk.injEq] at hop
    rw [← hop.1]
    exact fun child hchild => eq_or_mem_of_mem_insertIdx hchild

variable {plan : DockEdgeDockPlan}

/-- Docking a node that is not staged beside another that is not. -/
theorem applyEdgeDockPlan (h : Fenced original staged self) (space : DockSpaceId)
    (htarget : ¬ staged plan.targetNode) (hnew : ¬ staged newChild) :
    Fenced original staged (self.applyEdgeDockPlan space plan newChild).2 := by
  cases plan with
  | insertIntoSplit split zone anchorChild anchorIndex insertIndex sizing scope =>
    simp only [applyEdgeDockPlan]
    split
    · next hget =>
      split
      · next kept shares hshare =>
        apply h.setNode htarget
        intro child hchild
        rcases splitShareAndInsert_mem hshare child hchild with rfl | hold
        · exact hnew
        · exact h.nodes.child htarget hget child hold
      · exact h
    · exact h
  | wrapTarget target axis zone sizing =>
    have hchildren : ∀ child ∈ [(orderedEdgeChildren zone newChild target).leading,
          (orderedEdgeChildren zone newChild target).trailing], ¬ staged child := by
      cases zone <;> simpa using And.intro ‹_› ‹_›
    have hinsert : Fenced original staged (self.insertNode (.split axis [(orderedEdgeChildren zone
        newChild target).leading, (orderedEdgeChildren zone newChild target).trailing]
        [(orderedEdgeFractions zone sizing.newChildShare).leading, (orderedEdgeFractions zone
        sizing.newChildShare).trailing])).2 :=
      h.insertNode hchildren
    exact hinsert.replaceNodeInSpaceTree h.nodes.next_not_staged

/-- The node a checked drop target names is attached. -/
theorem plan_target (h : Fenced original staged self)
    (hvalidate : self.validateGraphDropTarget space (.edge plan) = .ok ()) :
    ¬ staged plan.targetNode := by
  simp only [validateGraphDropTarget, Checked.guard_eq_ok] at hvalidate
  have hcurrent : self.edgeDockPlanIsCurrent space plan = true := by simpa using hvalidate.1
  cases plan with
  | insertIntoSplit split zone anchorChild anchorIndex insertIndex sizing scope =>
    rw [edgeDockPlanIsCurrent] at hcurrent
    split at hcurrent
    · cases hcurrent
    · next hguard =>
      rw [Bool.or_eq_true, not_or] at hguard
      exact h.rootForNodeInSpace hguard.2
  | wrapTarget target axis zone sizing =>
    simp only [edgeDockPlanIsCurrent, Bool.and_eq_true] at hcurrent
    have hfound : (self.rootForNodeInSpace space target).isNone ≠ true := by
      rw [ne_eq, isNone_iff_eq_none]
      intro hnone
      rw [hnone] at hcurrent
      cases hcurrent.2
    exact h.rootForNodeInSpace hfound

end Docking

section Ops

variable (h : Fenced original staged self)

include h

theorem closeItem
    (hop : self.closeItem space item = (true, next)) : Fenced original staged next := by
  rw [DockGraph.closeItem] at hop
  split at hop
  · cases hop
  · next tabs index hfind =>
    have htabs := h.findItemInSpace hfind
    split at hop
    · cases hop
    · next removed hremove =>
      cases hop
      exact ((h.removeItemFromTabs htabs hremove).selectPreferred htabs _).simplifySpace space

variable {insertIndex : Option Nat}

theorem openItem {targetTabs : Option DockNodeId}
    (hop : self.openItem space targetTabs item insertIndex = (true, next)) :
    Fenced original staged next := by
  rw [openItem.eq_def] at hop
  split at hop
  · cases hop
  · cases targetTabs with
    | some tabs =>
      simp only at hop
      obtain ⟨hfound, hop⟩ := of_guard hop
      have hinsert := h.insertItemIntoTabsAt (h.rootForNodeInSpace hfound) item insertIndex none
      rwa [hop] at hinsert
    | none =>
      simp only at hop
      obtain ⟨_, hop⟩ := of_guard hop
      cases hop
      exact (h.insertTabs [item] (some item)).setRootForEmptySpace h.nodes.next_not_staged space

variable {dropTarget : DockGraphDropTarget}

theorem moveItem (hvalidate : self.validateGraphDropTarget target dropTarget = .ok ())
    (hop : self.moveItemBetweenSpaces source item target dropTarget = (true, next)) :
    Fenced original staged next := by
  rw [moveItemBetweenSpaces] at hop
  split at hop
  · cases hop
  · next sourceTabs sourceIndex hfind =>
    have hsource := h.findItemInSpace hfind
    cases dropTarget with
    | center tabs =>
      simp only at hop
      obtain ⟨_, hop⟩ := of_guard hop
      obtain ⟨hfound, hop⟩ := of_guard hop
      obtain ⟨_, hop⟩ := of_guard hop
      split at hop
      · cases hop
      · next removed hremove =>
        rw [Prod.mk.injEq] at hop
        rw [← hop.2]
        exact ((h.removeItemFromTabs hsource hremove).insertItemIntoTabsAt
          (h.rootForNodeInSpace hfound) _ _ _).simplifySpacesAfterMove source target
    | tabBar tabs insertIndex =>
      simp only at hop
      obtain ⟨hfound, hop⟩ := of_guard hop
      obtain ⟨_, hop⟩ := of_guard hop
      obtain ⟨_, hop⟩ := of_guard hop
      split at hop
      · cases hop
      · next removed hremove =>
        rw [Prod.mk.injEq] at hop
        rw [← hop.2]
        exact ((h.removeItemFromTabs hsource hremove).insertItemIntoTabsAt
          (h.rootForNodeInSpace hfound) _ _ _).simplifySpacesAfterMove source target
    | edge plan =>
      simp only at hop
      split at hop
      · cases hop
      · next removed hremove =>
        have hremoved := h.removeItemFromTabs hsource hremove
        have hnew : ¬ staged (removed.insertNode (.tabs [item] (some item))).1 :=
          hremoved.nodes.next_not_staged
        have hdock := (hremoved.insertTabs [item] (some item)).applyEdgeDockPlan target
          (h.plan_target hvalidate) hnew
        split at hop
        · cases hop
        · next docked happly =>
          cases hop
          rw [happly] at hdock
          exact hdock.simplifySpacesAfterMove source target
    | emptySpace =>
      simp only at hop
      obtain ⟨_, hop⟩ := of_guard hop
      rw [moveItemToEmptySpace, hfind] at hop
      simp only at hop
      split at hop
      · cases hop
      · next removed hremove =>
        have hremoved := h.removeItemFromTabs hsource hremove
        cases hop
        exact (((hremoved.insertTabs [item] (some item)).setRootForEmptySpace
          hremoved.nodes.next_not_staged target).simplifySpace source).simplifySpace target

theorem moveTabsIntoTabs {targetTabs : DockNodeId}
    (hop : self.moveTabsIntoTabs source tabs target targetTabs insertIndex = (true, next)) :
    Fenced original staged next := by
  rw [DockGraph.moveTabsIntoTabs] at hop
  obtain ⟨_, hop⟩ := of_guard hop
  obtain ⟨hfound, hop⟩ := of_guard hop
  obtain ⟨_, hop⟩ := of_guard hop
  split at hop
  · cases hop
  · next detached removed htake =>
    have hremoved := h.takeTabsFromSpaceWithSimplify htake
    rw [Prod.mk.injEq] at hop
    rw [← hop.2]
    exact (hremoved.insertItemsIntoTabsAt (h.rootForNodeInSpace hfound) _ _
      _).simplifySpacesAfterMove source target

/-- Moving a stack leaves what is staged alone. -/
theorem moveTabs (hvalidate : self.validateGraphDropTarget target dropTarget = .ok ())
    (hop : self.moveTabsBetweenSpaces source tabs target dropTarget = (true, next)) :
    Fenced original staged next := by
  cases dropTarget with
  | center targetTabs | tabBar targetTabs insertIndex => exact h.moveTabsIntoTabs hop
  | edge plan =>
    simp only [moveTabsBetweenSpaces] at hop
    split at hop
    · cases hop
    · next detached removed htake =>
      have hinsert := (h.takeTabsFromSpaceWithSimplify htake).insertDetachedTabs detached
      have hdock := hinsert.1.applyEdgeDockPlan target (h.plan_target hvalidate) hinsert.2
      split at hop
      · cases hop
      · next docked happly =>
        cases hop
        rw [happly] at hdock
        exact hdock.simplifySpacesAfterMove source target
  | emptySpace =>
    simp only [moveTabsBetweenSpaces] at hop
    obtain ⟨_, hop⟩ := of_guard hop
    rw [moveTabsToEmptySpace] at hop
    split at hop
    · cases hop
    · next detached removed htake =>
      have hinsert := (h.takeTabsFromSpaceWithSimplify htake).insertDetachedTabs detached
      cases hop
      exact (hinsert.1.setRootForEmptySpace hinsert.2 target).simplifySpace target

variable {bounds : Bounds}

theorem floatItem (hop : self.floatItemInWindow source item target bounds = (true, next)) :
    Fenced original staged next := by
  rw [floatItemInWindow] at hop
  split at hop
  · cases hop
  · next tabs index hfind =>
    split at hop
    · cases hop
    · next removed hremove =>
      have hremoved := h.removeItemFromTabs (h.findItemInSpace hfind) hremove
      cases hop
      exact (((hremoved.insertTabs [item] (some item)).pushFloating target
        hremoved.nodes.next_not_staged bounds).simplifySpace source).simplifySpace target

theorem floatTabs (hop : self.floatTabsInWindow source tabs target bounds = (true, next)) :
    Fenced original staged next := by
  rw [floatTabsInWindow] at hop
  split at hop
  · cases hop
  · next detached removed htake =>
    have hinsert := (h.takeTabsFromSpaceWithSimplify htake).insertDetachedTabs detached
    cases hop
    exact (hinsert.1.pushFloating target hinsert.2 bounds).simplifySpace target

end Ops

variable {floating : DockNodeId} (h : Fenced original staged self)

include h

/-- The container goes, and its child is not staged. -/
theorem takeFloatingChildFromSpace {child : DockNodeId}
    (hop : self.takeFloatingChildFromSpace space floating = some (child, next)) :
    Fenced original staged next ∧ ¬ staged child := by
  rw [DockGraph.takeFloatingChildFromSpace] at hop
  split at hop
  · next own hget =>
    split at hop
    · cases hop
    · next floatings hfloatings =>
      split at hop
      · cases hop
      · next index hindex =>
        cases hop
        have hcontainers := h.floatings space
        rw [floatingContainers, hfloatings] at hcontainers
        obtain ⟨hlt, hnode, -⟩ := findIdx?_eq_some_iff_getElem.mp hindex
        rw [beq_iff_eq] at hnode
        refine ⟨h.setFloatings space fun container hin =>
          hcontainers container (mem_of_mem_eraseIdx hin), ?_⟩
        apply h.nodes.child (hnode ▸ hcontainers _ (getElem_mem hlt)) hget
        exact mem_singleton_self _
  · cases hop

theorem mergeFloatingTabsIntoTabs {floatingTabs targetTabs : DockNodeId} {insertIndex : Option Nat}
    (htarget : ¬ staged targetTabs)
    (hop : self.mergeFloatingTabsIntoTabs source floating floatingTabs target targetTabs
      insertIndex = (true, next)) : Fenced original staged next := by
  rw [DockGraph.mergeFloatingTabsIntoTabs] at hop
  obtain ⟨_, hop⟩ := of_guard hop
  split at hop
  · next items selected hitems =>
    obtain ⟨_, hop⟩ := of_guard hop
    split at hop
    · cases hop
    · next child removed htake =>
      have hremoved := (h.takeFloatingChildFromSpace htake).1
      dsimp only at hop
      split at hop
      · cases hop
      · next merged hmerge =>
        have hinsert := hremoved.insertItemsIntoTabsAt htarget items insertIndex
          (self.selectedItemInTabs floatingTabs)
        rw [hmerge] at hinsert
        cases hop
        exact hinsert.simplifySpacesAfterMove source target
  · cases hop

theorem moveFloating {dropTarget : DockGraphDropTarget}
    (hvalidate : self.validateGraphDropTarget target dropTarget = .ok ())
    (hop : self.moveFloatingBetweenSpaces source floating target dropTarget = (true, next)) :
    Fenced original staged next := by
  rw [moveFloatingBetweenSpaces.eq_def] at hop
  obtain ⟨_, hop⟩ := of_guard hop
  obtain ⟨hrejects, hop⟩ := of_guard hop
  have hplace : ∀ key, dropTarget.existingNode = some key → ¬ staged key := by
    intro key hkey
    rw [rejectsFloatingTarget, hkey, Bool.or_eq_true, not_or] at hrejects
    exact h.rootForNodeInSpace hrejects.1
  cases dropTarget with
  | center targetTabs =>
    simp only at hop
    split at hop
    · obtain ⟨_, hop⟩ := of_guard hop
      obtain ⟨_, hop⟩ := of_guard hop
      exact h.mergeFloatingTabsIntoTabs (hplace _ rfl) hop
    · cases hop
  | tabBar targetTabs insertIndex =>
    simp only at hop
    split at hop
    · obtain ⟨_, hop⟩ := of_guard hop
      exact h.mergeFloatingTabsIntoTabs (hplace _ rfl) hop
    · cases hop
  | edge plan =>
    simp only at hop
    split at hop
    · cases hop
    · next child removed htake =>
      obtain ⟨hremoved, hchild⟩ := h.takeFloatingChildFromSpace htake
      have hdock := hremoved.applyEdgeDockPlan target (h.plan_target hvalidate) hchild
      split at hop
      · cases hop
      · next docked happly =>
        cases hop
        rw [happly] at hdock
        exact hdock.simplifySpacesAfterMove source target
  | emptySpace =>
    simp only [moveFloatingToEmptySpace] at hop
    obtain ⟨_, hop⟩ := of_guard hop
    split at hop
    · cases hop
    · next child removed htake =>
      obtain ⟨hremoved, hchild⟩ := h.takeFloatingChildFromSpace htake
      cases hop
      exact (hremoved.setRootForEmptySpace hchild target).simplifySpacesAfterMove source target

theorem setFloatingBounds {bounds : Bounds}
    (hop : self.setFloatingBounds space floating bounds = (true, next)) :
    Fenced original staged next := by
  rw [DockGraph.setFloatingBounds] at hop
  split at hop
  · cases hop
  · next floatings hfloatings =>
    have hcontainers := h.floatings space
    rw [floatingContainers, hfloatings] at hcontainers
    split at hop
    · cases hop
    · split at hop
      · cases hop
      · next container hcontainer =>
        obtain ⟨_, hop⟩ := of_guard hop
        cases hop
        apply h.setFloatings space
        intro other hother
        rcases mem_or_eq_of_mem_set hother with hold | rfl
        · exact hcontainers other hold
        · exact hcontainers container (mem_of_getElem? hcontainer)

theorem raiseFloating
    (hop : self.raiseFloating space floating = (true, next)) : Fenced original staged next := by
  rw [DockGraph.raiseFloating] at hop
  split at hop
  · cases hop
  · next floatings hfloatings =>
    have hcontainers := h.floatings space
    rw [floatingContainers, hfloatings] at hcontainers
    split at hop
    · cases hop
    · next index hindex =>
      obtain ⟨_, hop⟩ := of_guard hop
      cases hop
      apply h.setFloatings space
      intro other hother
      rcases mem_append.mp hother with hold | hlast
      · exact hcontainers other (mem_of_mem_eraseIdx hold)
      · exact hcontainers other (mem_of_getElem? (mem_toList.mp hlast))

end OpenGpui.Docking.DockGraph.Fenced
