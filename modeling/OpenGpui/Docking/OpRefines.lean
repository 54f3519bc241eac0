/-
Every mutation of a graph is a step of its forest: what is taken out of a stack or a
container of one space goes into a stack, beside a node, to the root or into a new
container of another one, and the spaces involved are simplified.
-/
import OpenGpui.Docking.ForestMoves
import OpenGpui.Docking.OpValidation

namespace OpenGpui.Docking.DockGraph

open DockTree DockForest Option SlotMap SpaceTrees List Function

variable {self after : DockGraph} {forest : DockForest} {space : DockSpaceId}

section Stacks

variable {tabs : DockNodeId} {items : List DockItemId} {selected : Option DockItemId}

theorem Holds.get_tabs (h : self.Holds forest)
    (hsub : .tabs tabs items selected ∈ (forest space).subtrees) :
    self.nodes.get tabs = some (.tabs items selected) :=
  h.get hsub

theorem forgetTabSelection_eq (self : DockGraph) (tabs : DockNodeId) (item : DockItemId) :
    (self.forgetTabSelection tabs item).nodes = self.nodes ∧
      (self.forgetTabSelection tabs item).roots = self.roots ∧
      (self.forgetTabSelection tabs item).floatings = self.floatings ∧
      (self.forgetTabSelection tabs item).centralRegions = self.centralRegions := by
  rw [forgetTabSelection]
  split <;> exact ⟨rfl, rfl, rfl, rfl⟩

variable {item : DockItemId}

theorem Holds.removeItemFromTabs (h : self.Holds forest)
    (hsub : .tabs tabs items selected ∈ (forest space).subtrees) {index : Nat}
    (hitem : items[index]? = some item) :
    ∃ next after, self.removeItemFromTabs tabs index = (true, after) ∧
      after.Holds (forest.setTabs tabs (items.eraseIdx index) next) ∧
      after.nodes = self.nodes.set tabs (.tabs (items.eraseIdx index) next) := by
  have hget := h.get_tabs hsub
  simp only [DockGraph.removeItemFromTabs, hget, hitem]
  refine ⟨_, _, rfl, ?_, (forgetTabSelection_eq _ _ _).1⟩
  exact (h.setTabs hget _ _).of_eq (forgetTabSelection_eq _ _ _).1 (forgetTabSelection_eq _ _ _).2.1
    (forgetTabSelection_eq _ _ _).2.2.1 (forgetTabSelection_eq _ _ _).2.2.2

theorem Holds.selectPreferred (h : self.Holds forest)
    (hsub : .tabs tabs items selected ∈ (forest space).subtrees) (preferred : Option DockItemId) :
    ∃ next, (self.selectPreferred tabs preferred).Holds (forest.setTabs tabs items next) := by
  have hget := h.get_tabs hsub
  have hsame : self.setNode tabs (.tabs items selected) = self := by
    rw [DockGraph.setNode, set_get_self hget]
  rw [DockGraph.selectPreferred.eq_def, hget]
  cases preferred with
  | none =>
    refine ⟨selected, ?_⟩
    have hset := h.setTabs hget items selected
    rwa [hsame] at hset
  | some preferred =>
    simp only
    split
    · exact ⟨some preferred, h.setTabs hget _ _⟩
    · refine ⟨selected, ?_⟩
      have hset := h.setTabs hget items selected
      rwa [hsame] at hset

theorem Holds.insertItemIntoTabsAt (h : self.Holds forest)
    (hsub : .tabs tabs items selected ∈ (forest space).subtrees)
    (hnew : item ∉ items) (index : Option Nat) (selectedInGroup : Option DockItemId) :
    ∃ merged after, self.insertItemIntoTabsAt tabs item index selectedInGroup = (true, after) ∧
      merged.Perm (items ++ [item]) ∧
      after.Holds (forest.setTabs tabs merged (some item)) := by
  have hget := h.get_tabs hsub
  have hcontains : items.contains item = false := by simpa using hnew
  simp only [DockGraph.insertItemIntoTabsAt, hget, hcontains, Bool.false_eq_true, if_false]
  refine ⟨_, _, rfl, ?_, (h.setTabs hget _ _).of_eq rfl rfl rfl rfl⟩
  cases index with
  | none => exact List.Perm.refl _
  | some index =>
    exact (perm_insertIdx item items (Nat.min_le_right _ _)).trans
      (perm_append_singleton item items).symm

theorem insertMissingItems_perm {next items : List DockItemId} {insertAt : Nat}
    (hat : insertAt ≤ items.length) (hnodup : next.Nodup) (hnew : ∀ item ∈ next, item ∉ items) :
    (insertMissingItems next insertAt items).Perm (items ++ next) := by
  induction next generalizing insertAt items with
  | nil => simp [insertMissingItems]
  | cons item rest ih =>
    rw [nodup_cons] at hnodup
    have hcontains : items.contains item = false := by simpa using hnew item mem_cons_self
    have hinsert := perm_insertIdx item items hat
    rw [insertMissingItems, hcontains]
    simp only [Bool.false_eq_true, if_false]
    have hrest : (insertMissingItems rest (insertAt + 1) (items.insertIdx insertAt item)).Perm
        (items.insertIdx insertAt item ++ rest) := by
      apply ih _ hnodup.2
      · intro other hother hin
        rcases mem_cons.mp (hinsert.mem_iff.mp hin) with rfl | hold
        · exact hnodup.1 hother
        · exact hnew other (mem_cons_of_mem _ hother) hold
      · rw [length_insertIdx_of_le_length hat]
        omega
    exact (hrest.trans (hinsert.append_right rest)).trans perm_middle.symm

theorem Holds.insertItemsIntoTabsAt (h : self.Holds forest)
    (hsub : .tabs tabs items selected ∈ (forest space).subtrees) {nextItems : List DockItemId}
    (hne : nextItems ≠ []) (hnodup : nextItems.Nodup) (hnew : ∀ item ∈ nextItems, item ∉ items)
    (index : Option Nat) (selectedInGroup : Option DockItemId) :
    ∃ merged next after,
      self.insertItemsIntoTabsAt tabs nextItems index selectedInGroup = (true, after) ∧
      merged.Perm (items ++ nextItems) ∧ after.Holds (forest.setTabs tabs merged next) := by
  have hget := h.get_tabs hsub
  have hempty : nextItems.isEmpty = false := by simpa using hne
  have hperm := insertMissingItems_perm
    (Nat.min_le_right (index.getD items.length) items.length) hnodup hnew
  simp only [DockGraph.insertItemsIntoTabsAt, hempty, hget, Bool.false_eq_true, if_false]
  cases selectedInGroup with
  | none => exact ⟨_, selected, _, rfl, hperm, h.setTabs hget _ _⟩
  | some item => exact ⟨_, some item, _, rfl, hperm, (h.setTabs hget _ _).of_eq rfl rfl rfl rfl⟩

/-- Without its root a space holds none of the nodes of the root tree. -/
theorem Holds.removeRoot_fresh (h : self.Holds forest) {tree : DockTree}
    (hroot : (forest space).root = some tree) {key : DockNodeId} (hkey : key ∈ tree.ids)
    (other : DockSpaceId) : key ∉ (forest.removeRoot space other).ids := by
  intro hmem
  have hids : (forest space).ids =
      tree.ids ++ ({ forest space with root := none } : SpaceTrees).ids := by
    simp [SpaceTrees.ids, SpaceTrees.trees, hroot]
  have hspace : key ∈ (forest space).ids := by
    rw [hids]
    exact mem_append_left _ hkey
  by_cases hother : other = space
  · subst hother
    rw [DockForest.removeRoot, update_self] at hmem
    have hnodup := h.nodup other
    rw [hids, nodup_append] at hnodup
    exact hnodup.2.2 key hkey key hmem rfl
  · rw [DockForest.removeRoot, update_of_ne hother] at hmem
    exact hother (h.apart hmem hspace)

theorem Holds.root_eq_tabs_iff (h : self.Holds forest)
    (hsub : .tabs tabs items selected ∈ (forest space).subtrees) :
    self.root space = some tabs ↔ (forest space).root = some (.tabs tabs items selected) := by
  rw [h.root]
  constructor
  · intro hroot
    obtain ⟨tree, htree, hid⟩ := map_eq_some_iff.mp hroot
    have hmem : tree ∈ (forest space).trees := by simp [trees, htree]
    obtain ⟨_, rfl⟩ := h.sub_unique (tree_mem_subtrees hmem) hsub hid
    exact htree
  · intro hroot
    rw [hroot]
    rfl

/-- What is left behind when a stack has been taken out of a space. -/
structure TabsTaken (graph : DockGraph) (forest : DockForest) (space : DockSpaceId)
    (tabs : DockNodeId) (items : List DockItemId) (taken : DockForest) (after : DockGraph) :
    Prop where
  detach : forest.Detach space items taken
  holds : after.Holds taken
  kept : ∀ other, ∀ key ∈ (forest other).ids, key ≠ tabs → key ∈ (taken other).ids
  frame : ∀ key, tabs ≠ key → after.nodes.get key = graph.nodes.get key

/-- Taking a stack detaches its items. -/
theorem Holds.tabsTaken (h : self.Holds forest)
    (hsub : .tabs tabs items selected ∈ (forest space).subtrees) :
    ∃ taken, self.TabsTaken forest space tabs items taken
      (if ((self.takeTabSelectionState tabs).2.setNode tabs (.tabs [] none)).root space =
          some tabs then
        ((self.takeTabSelectionState tabs).2.setNode tabs (.tabs [] none)).removeRoot space
      else (self.takeTabSelectionState tabs).2.setNode tabs (.tabs [] none)) := by
  have hget := h.get_tabs hsub
  have hstart : (self.takeTabSelectionState tabs).2.Holds forest := h.of_eq rfl rfl rfl rfl
  have hset := hstart.setTabs hget [] none
  have hkept : ((self.takeTabSelectionState tabs).2.setNode tabs (.tabs [] none)).root space =
      self.root space := rfl
  by_cases hroot : self.root space = some tabs
  · have htree := (h.root_eq_tabs_iff hsub).mp hroot
    refine ⟨forest.removeRoot space, DockForest.Detach.root htree, ?_, ?_, ?_⟩
    · have hholds := (hstart.removeRoot space).setTabs hget [] none
      have hsame : (forest.removeRoot space).setTabs tabs [] none = forest.removeRoot space := by
        funext other
        apply SpaceTrees.rewrite_of_not_mem
        exact h.removeRoot_fresh htree (by simp) other
      rw [DockForest.setTabs] at hsame
      rw [hsame] at hholds
      rw [hkept, if_pos hroot]
      exact hholds
    · intro other key hkey hne
      by_cases hother : other = space
      · subst hother
        rw [DockForest.removeRoot, update_self]
        simp only [SpaceTrees.ids, SpaceTrees.trees, htree, toList_some,
          singleton_append, flatMap_cons, ids_tabs, mem_cons] at hkey
        exact hkey.resolve_left hne
      · rwa [DockForest.removeRoot, update_of_ne hother]
    · intro key hkey
      rw [hkept, if_pos hroot]
      exact get_set_ne _ _ hkey
  · have hids := h.proper.ids_setTabs hsub [] none
    refine ⟨forest.setTabs tabs [] none, DockForest.Detach.tabs hsub ?_, ?_, ?_, ?_⟩
    · exact fun htree => hroot ((h.root_eq_tabs_iff hsub).mpr htree)
    · rw [hkept, if_neg hroot]
      exact hset
    · intro other key hkey _
      rwa [hids]
    · intro key hkey
      rw [hkept, if_neg hroot]
      exact get_set_ne _ _ hkey

/-- Only a stack of the space that holds items can be taken. -/
theorem Holds.takeTabsFromSpace (h : self.Holds forest) {simplify : Bool} {detached : DetachedTabs}
    (htake : self.takeTabsFromSpaceWithSimplify space tabs simplify = some (detached, after)) :
    ∃ items selected history taken middle, .tabs tabs items selected ∈ (forest space).subtrees ∧
      items ≠ [] ∧ self.TabsTaken forest space tabs items taken middle ∧
      detached = ⟨items, selected, history⟩ ∧
      after = if simplify then middle.simplifySpaceStructure space else middle := by
  rw [takeTabsFromSpaceWithSimplify] at htake
  split at htake
  · cases htake
  · next hfound =>
    have hmem : tabs ∈ (forest space).ids := by
      by_contra hnot
      exact hfound (h.rootForNodeInSpace_isNone_iff.mpr hnot)
    split at htake
    · next items selected hget =>
      split at htake
      · cases htake
      · next hempty =>
        have hsub := h.tabs_mem hmem hget
        obtain ⟨taken, htaken⟩ := h.tabsTaken hsub
        cases htake
        exact ⟨items, selected, _, taken, _, hsub, by simpa using hempty, htaken, rfl, rfl⟩
    · cases htake

theorem Holds.insertDetachedTabs (h : self.Holds forest) (detached : DetachedTabs) :
    ∃ after, self.insertDetachedTabs detached = (self.nodes.next, after) ∧ after.Holds forest ∧
      after.Detached forest (.tabs self.nodes.next detached.items detached.selected) ∧
      ∀ key node, self.nodes.get key = some node → after.nodes.get key = some node := by
  have hnodes : ((self.insertNode
      (.tabs detached.items detached.selected)).2.restoreTabSelectionState
        self.nodes.next detached.selectionHistory).nodes =
      (self.insertNode (.tabs detached.items detached.selected)).2.nodes := by
    rw [restoreTabSelectionState]
    split <;> rfl
  have hinsert := h.insertNode (.tabs detached.items detached.selected)
  refine ⟨(self.insertNode (.tabs detached.items detached.selected)).2.restoreTabSelectionState
    self.nodes.next detached.selectionHistory, rfl, ?_, ?_, ?_⟩
  · apply hinsert.of_eq hnodes
    all_goals
      rw [restoreTabSelectionState]
      split <;> rfl
  · apply (h.insertTabs detached.items detached.selected).congr
    intro key _
    rw [hnodes]
  · intro key node hget
    rw [hnodes]
    exact get_insert_of_stored _ hget

end Stacks

variable {plan : DockEdgeDockPlan}

/-- A plan still fits when only a stack has changed and its target is still there. -/
theorem PlanFits.transfer (hfits : self.PlanFits forest space plan)
    {taken : DockForest} (htarget : plan.targetNode ∈ (taken space).ids)
    (hsplits : ∀ key axis children fractions,
      self.nodes.get key = some (.split axis children fractions) →
      after.nodes.get key = some (.split axis children fractions)) :
    after.PlanFits taken space plan where
  target := htarget
  split hplan := by
    obtain ⟨axis, children, fractions, hget, hrest⟩ := hfits.split hplan
    exact ⟨axis, children, fractions, hsplits _ _ _ _ hget, hrest⟩
  wrap := hfits.wrap

theorem PlanFits.accepts (hfits : self.PlanFits forest space plan) (h : self.Holds forest) :
    ∃ target ∈ (forest space).subtrees, target.id = plan.targetNode ∧ target.Accepts plan := by
  cases plan with
  | insertIntoSplit split zone anchorChild anchorIndex insertIndex sizing scope =>
    obtain ⟨axis, children, fractions, hget, hzone, _, hlen, hchild, _, hinsert, hmatch⟩ :=
      hfits.split rfl
    obtain ⟨kids, rfl, hsub⟩ := h.split_mem hfits.target hget
    rw [length_map] at hlen
    rw [← hlen] at hinsert
    exact ⟨_, hsub, rfl, _, _, kids, fractions, rfl, hzone, hlen, hchild, hinsert, hmatch⟩
  | wrapTarget target axis zone sizing =>
    obtain ⟨sub, hsub, hid⟩ := mem_ids_iff.mp hfits.target
    exact ⟨sub, hsub, hid, hfits.wrap rfl⟩

variable {next : DockGraph} {item : DockItemId} {key : DockNodeId}

theorem mem_ids_of_rootForNode (h : self.Holds forest)
    (hfound : (self.rootForNodeInSpace space key).isNone ≠ true) : key ∈ (forest space).ids := by
  by_contra hnot
  exact hfound (h.rootForNodeInSpace_isNone_iff.mpr hnot)

variable {tabs : DockNodeId}

/-- A found item can be taken out of its stack. -/
theorem Holds.takeItem (h : self.Holds forest) {index : Nat}
    (hfind : self.findItemInSpace space item = some (tabs, index)) :
    ∃ items selected nextSelected after, .tabs tabs items selected ∈ (forest space).subtrees ∧
      self.removeItemFromTabs tabs index = (true, after) ∧
      (∀ other, forest.Detach space [item] (forest.setTabs tabs (items.eraseIdx index) other)) ∧
      after.Holds (forest.setTabs tabs (items.eraseIdx index) nextSelected) ∧
      after.nodes = self.nodes.set tabs (.tabs (items.eraseIdx index) nextSelected) := by
  obtain ⟨items, selected, hsub, hitem, hindex⟩ := h.findItemInSpace_eq_some hfind
  obtain ⟨nextSelected, after, hremove, hholds, hnodes⟩ := h.removeItemFromTabs hsub hitem
  exact ⟨items, selected, nextSelected, after, hsub, hremove,
    fun other => DockForest.Detach.item other hsub hindex, hholds, hnodes⟩

theorem closeItem_step (h : self.Holds forest) (hop : self.closeItem space item = (true, next)) :
    ∃ after, forest.Step (.closeItem space item) after ∧ next.Holds after := by
  rw [closeItem] at hop
  split at hop
  · cases hop
  · next tabs index hfind =>
    obtain ⟨items, selected, nextSelected, removed, hsub, hremove, hdetach, hholds, hnodes⟩ :=
      h.takeItem hfind
    simp only [hremove, Prod.mk.injEq, true_and] at hop
    have hkey : tabs ∈ (forest.setTabs tabs (items.eraseIdx index) nextSelected space).ids := by
      rw [h.proper.ids_setTabs hsub]
      exact mem_ids_iff.mpr ⟨_, hsub, rfl⟩
    have hleft := hholds.tabs_mem hkey (by rw [hnodes]; exact get_set_self _ (h.get_tabs hsub))
    obtain ⟨preferred, hpreferred⟩ :=
      hholds.selectPreferred hleft (self.preferredAfterClose tabs item)
    rw [setTabs_setTabs] at hpreferred
    refine ⟨_, DockForest.Step.closeItem (hdetach preferred), ?_⟩
    rw [← hop]
    exact hpreferred.simplifySpaceStructure space

variable {targetTabs : Option DockNodeId} {insertIndex : Option Nat}

/-- A new item joins a stack of the space or becomes its root. -/
theorem openItem_places (h : self.Holds forest)
    (hop : self.openItem space targetTabs item insertIndex = (true, next)) :
    ¬ forest.Placed item ∧ ∃ after, next.Holds after ∧
      ((∃ tabs own merged selected, .tabs tabs own selected ∈ (forest space).subtrees ∧
          merged.Perm (own ++ [item]) ∧ after = forest.setTabs tabs merged (some item)) ∨
        ∃ tabs, (forest space).root = none ∧
          after = forest.placeRoot space (.tabs tabs [item] (some item))) := by
  rw [openItem.eq_def] at hop
  obtain ⟨hcontains, hop⟩ := of_guard hop
  have hnew : ¬ forest.Placed item := fun hplaced => hcontains (h.containsItem_iff.mpr hplaced)
  cases targetTabs with
  | some tabs =>
    simp only at hop
    obtain ⟨hfound, hop⟩ := of_guard hop
    have hmem := mem_ids_of_rootForNode h hfound
    have htabs : ∃ items selected, self.nodes.get tabs = some (.tabs items selected) := by
      rw [insertItemIntoTabsAt] at hop
      split at hop
      · next items selected hget => exact ⟨items, selected, hget⟩
      · cases hop
    obtain ⟨items, selected, hget⟩ := htabs
    have hsub := h.tabs_mem hmem hget
    have hleaf : forest.HasLeaf (tabs, items) := hasLeaf_iff.mpr ⟨space, selected, hsub⟩
    have hfresh : item ∉ items := fun hin => hnew ⟨_, hleaf, hin⟩
    obtain ⟨merged, after, hinsert, hmerged, hholds⟩ :=
      h.insertItemIntoTabsAt hsub hfresh insertIndex none
    rw [hinsert] at hop
    cases hop
    exact ⟨hnew, _, hholds, .inl ⟨tabs, items, merged, selected, hsub, hmerged, rfl⟩⟩
  | none =>
    simp only at hop
    obtain ⟨hempty, hop⟩ := of_guard hop
    have hroot : (forest space).root = none := by
      have hnone : self.root space = none := by
        rw [Bool.or_eq_true, not_or] at hempty
        simpa using hempty.1
      rw [h.root] at hnone
      simpa using hnone
    simp only [Prod.mk.injEq, true_and] at hop
    have hstored := h.insertTabs [item] (some item)
    have hplaced := (h.insertNode (.tabs [item] (some item))).setRootForEmptySpace hstored space
    rw [← hop]
    exact ⟨hnew, _, hplaced, .inr ⟨_, hroot, rfl⟩⟩

theorem openItem_step (h : self.Holds forest)
    (hop : self.openItem space targetTabs item insertIndex = (true, next)) :
    ∃ after, forest.Step (.openItem space targetTabs item insertIndex) after ∧
      next.Holds after := by
  obtain ⟨hnew, after, hholds, hcase⟩ := openItem_places h hop
  refine ⟨after, ?_, hholds⟩
  rcases hcase with ⟨tabs, own, merged, selected, hsub, hmerged, rfl⟩ | ⟨tabs, hroot, rfl⟩
  · exact .openItem hnew (items_tabs tabs [item] none) (.merge _ hsub (by simpa using hmerged))
  · exact .openItem hnew (items_tabs _ _ _) (.root hroot)

/-- The spaces a move simplifies at its end. -/
def afterMove (source target : DockSpaceId) : List DockSpaceId :=
  if source ≠ target then [source, target] else [source]

theorem Holds.simplifySpacesAfterMove (h : self.Holds forest) (source target : DockSpaceId) :
    (self.simplifySpacesAfterMove source target).Holds
      (forest.simplifySpaces (afterMove source target)) := by
  rw [DockGraph.simplifySpacesAfterMove, afterMove]
  by_cases hspaces : source ≠ target
  · rw [if_pos hspaces, if_pos hspaces]
    exact (h.simplifySpaceStructure source).simplifySpaceStructure target
  · rw [if_neg hspaces, if_neg hspaces]
    exact h.simplifySpaceStructure source

variable {source target : DockSpaceId} {taken : DockForest} {payload : DockTree}

theorem Step.afterMove {op : DockOp} {items : List DockItemId} {put : DockForest}
    (hop : op.movesBetween = some (source, target)) (hdetach : forest.Detach source items taken)
    (hpayload : payload.items = items) (hattach : taken.Attach target payload put) :
    forest.Step op (put.simplifySpaces (afterMove source target)) := by
  have htarget : target ∈ DockGraph.afterMove source target := by
    rw [DockGraph.afterMove]
    by_cases hspaces : source = target <;> simp [hspaces]
  have hsource : source ∈ DockGraph.afterMove source target := by
    rw [DockGraph.afterMove]
    by_cases hspaces : source = target <;> simp [hspaces]
  have hput : (taken.simplifySpaces []).Attach target payload put := hattach
  refine DockForest.Step.move [] _ hop hdetach hpayload hput htarget hsource (by simp) ?_
  intro space hspace
  rw [DockGraph.afterMove] at hspace
  split at hspace
  · simpa using hspace
  · exact .inl (mem_singleton.mp hspace)

theorem isTabsNode_iff : self.isTabsNode key = true ↔ ∃ items selected, self.nodes.get key =
      some (.tabs items selected) := by
  rw [isTabsNode]
  split
  · next items selected hget =>
    simp only [true_iff]
    exact ⟨items, selected, hget⟩
  · next hnot =>
    simp only [Bool.false_eq_true, false_iff]
    rintro ⟨items, selected, hget⟩
    exact hnot items selected hget

variable {selected : Option DockItemId}

/-- What was taken out is no longer in any stack. -/
theorem Detach.not_mem_leaf {items own : List DockItemId}
    (hdetach : forest.Detach space items taken) (hproper : forest.Proper)
    (hdistinct : forest.ItemsDistinct) {other : DockSpaceId}
    (hsub : .tabs tabs own selected ∈ (taken other).subtrees)
    (hitem : item ∈ items) : item ∉ own := by
  intro hin
  have hleaf : taken.HasLeaf (tabs, own) := hasLeaf_iff.mpr ⟨other, selected, hsub⟩
  exact ((hdetach.placed hproper hdistinct item).mp ⟨_, hleaf, hin⟩).2 hitem

variable (h : self.Holds forest)

include h

/-- Putting a taken item into a stack. -/
theorem Holds.putItem (hvalid : forest.Valid) (hdetach : forest.Detach source [item] taken)
    (htaken : after.Holds taken) (hmem : tabs ∈ (taken target).ids) {own : List DockItemId}
    (hget : after.nodes.get tabs = some (.tabs own selected)) (index : Option Nat)
    (selectedInGroup : Option DockItemId) :
    ∃ put last, after.insertItemIntoTabsAt tabs item index selectedInGroup = (true, last) ∧
      taken.Attach target (.tabs tabs [item] none) put ∧ last.Holds put := by
  have hsub := htaken.tabs_mem hmem hget
  have hfresh := Detach.not_mem_leaf hdetach h.proper hvalid.items hsub (mem_singleton_self item)
  obtain ⟨merged, last, hinsert, hmerged, hholds⟩ :=
    htaken.insertItemIntoTabsAt hsub hfresh index selectedInGroup
  exact ⟨_, last, hinsert, DockForest.Attach.merge _ hsub (by simpa using hmerged), hholds⟩

/-- The plan of a drop target that passes validation fits. -/
theorem Holds.planFits_of_target {plan : DockEdgeDockPlan}
    (hvalidate : self.validateGraphDropTarget space (.edge plan) = .ok ()) :
    self.PlanFits forest space plan := by
  simp only [validateGraphDropTarget, Checked.guard_eq_ok] at hvalidate
  exact h.planFits (by simpa using hvalidate.1)

/-- Docking a tree where the plan says is a way to attach it. -/
theorem Holds.dockTree {plan : DockEdgeDockPlan} (hfits : self.PlanFits forest space plan)
    (hpayload : self.Detached forest payload) :
    ∃ put after, self.applyEdgeDockPlan space plan payload.id = (true, after) ∧
      forest.Attach space payload put ∧ after.Holds put := by
  obtain ⟨after, happly, hholds⟩ := h.applyEdgeDockPlan hfits hpayload
  obtain ⟨target, htarget, hid, haccepts⟩ := hfits.accepts h
  exact ⟨_, after, happly, DockForest.Attach.dock _ htarget hid haccepts, hholds⟩

/-- A space that counts as empty for a move has no root. -/
theorem root_eq_none_of_empty {rest : Bool}
    (hempty : ¬(!if (self.root space).isSome then false else rest) = true) :
    (forest space).root = none := by
  rw [h.root] at hempty
  split at hempty
  · simp at hempty
  · next hsome => simpa using hsome

theorem moveItem_step (hvalid : forest.Valid) {dropTarget : DockGraphDropTarget}
    (hvalidate : self.validateGraphDropTarget target dropTarget = .ok ())
    (hop : self.moveItemBetweenSpaces source item target dropTarget = (true, next)) :
    ∃ after, forest.Step (.moveItem source item target dropTarget) after ∧ next.Holds after := by
  rw [moveItemBetweenSpaces] at hop
  split at hop
  · cases hop
  · next sourceTabs sourceIndex hfind =>
    obtain ⟨items, selected, nextSelected, removed, hsub, hremove, hdetach, hholds, hnodes⟩ :=
      h.takeItem hfind
    have hids := h.proper.ids_setTabs hsub (items.eraseIdx sourceIndex) nextSelected
    have hsourceGet := h.get_tabs hsub
    -- a stack is still a stack once the item has left
    have htabs : ∀ key, self.isTabsNode key = true →
        ∃ own selected, removed.nodes.get key = some (.tabs own selected) := by
      intro key hkey
      obtain ⟨own, ownSelected, hget⟩ := isTabsNode_iff.mp hkey
      rw [hnodes, get_set]
      by_cases hsame : sourceTabs = key
      · rw [if_pos hsame, hget]
        exact ⟨_, _, rfl⟩
      · rw [if_neg hsame]
        exact ⟨own, ownSelected, hget⟩
    have hput : ∀ {tabs : DockNodeId} (index : Option Nat),
        (self.rootForNodeInSpace target tabs).isNone ≠ true → self.isTabsNode tabs = true →
        ∃ after, forest.Step (.moveItem source item target dropTarget) after ∧
          ((removed.insertItemIntoTabsAt tabs item index none).2.simplifySpacesAfterMove source
            target).Holds after ∧
          (removed.insertItemIntoTabsAt tabs item index none).1 = true := by
      intro tabs index hfound htabsNode
      obtain ⟨own, ownSelected, hget⟩ := htabs tabs htabsNode
      have hmem := mem_ids_of_rootForNode h hfound
      rw [← hids] at hmem
      obtain ⟨put, last, hinsert, hattach, hlast⟩ :=
        h.putItem hvalid (hdetach nextSelected) hholds hmem hget index none
      refine ⟨_, Step.afterMove rfl (hdetach nextSelected) (items_tabs _ _ _) hattach, ?_, ?_⟩
      · rw [hinsert]
        exact hlast.simplifySpacesAfterMove source target
      · rw [hinsert]
    cases dropTarget with
    | center tabs =>
      simp only [hremove] at hop
      obtain ⟨_, hop⟩ := of_guard hop
      obtain ⟨hfound, hop⟩ := of_guard hop
      obtain ⟨htabsNode, hop⟩ := of_guard hop
      obtain ⟨after, hstep, hafter, _⟩ := hput none hfound (by simpa using htabsNode)
      simp only [Prod.mk.injEq] at hop
      rw [← hop.2]
      exact ⟨after, hstep, hafter⟩
    | tabBar tabs insertIndex =>
      simp only [hremove] at hop
      obtain ⟨hfound, hop⟩ := of_guard hop
      obtain ⟨htabsNode, hop⟩ := of_guard hop
      obtain ⟨_, hop⟩ := of_guard hop
      obtain ⟨after, hstep, hafter, _⟩ := hput
        (some (if (source = target ∧ sourceTabs = tabs) ∧ sourceIndex < insertIndex then
          insertIndex - 1 else insertIndex)) hfound (by simpa using htabsNode)
      simp only [Prod.mk.injEq] at hop
      rw [← hop.2]
      exact ⟨after, hstep, hafter⟩
    | edge plan =>
      have hfits := h.planFits_of_target hvalidate
      have hstored := hholds.insertTabs [item] (some item)
      have hinsert := hholds.insertNode (.tabs [item] (some item))
      have hfitsNow : (removed.insertNode (.tabs [item] (some item))).2.PlanFits
          (forest.setTabs sourceTabs (items.eraseIdx sourceIndex) nextSelected) target plan := by
        apply hfits.transfer
        · rw [hids]
          exact hfits.target
        · intro key axis children fractions hget
          apply get_insert_of_stored
          rw [hnodes, get_set_ne, hget]
          rintro rfl
          rw [hsourceGet] at hget
          cases hget
      obtain ⟨put, docked, happly, hattach, hdocked⟩ := hinsert.dockTree hfitsNow hstored
      simp only [hremove, insertNode] at hop
      simp only [insertNode, id_tabs] at happly
      rw [SlotMap.insert_fst] at hop
      simp only [happly] at hop
      cases hop
      exact ⟨_, Step.afterMove rfl (hdetach nextSelected) (items_tabs _ _ _) hattach,
        hdocked.simplifySpacesAfterMove source target⟩
    | emptySpace =>
      simp only at hop
      obtain ⟨hempty, hop⟩ := of_guard hop
      have hroot := root_eq_none_of_empty h hempty
      simp only [moveItemToEmptySpace, hfind, hremove, Prod.mk.injEq, true_and] at hop
      have hstored := hholds.insertTabs [item] (some item)
      have hinsert := hholds.insertNode (.tabs [item] (some item))
      have hplaced := hinsert.setRootForEmptySpace hstored target
      have hrootNow : (forest.setTabs sourceTabs (items.eraseIdx sourceIndex) nextSelected
          target).root = none := by
        simp [DockForest.setTabs, DockForest.rewrite, SpaceTrees.rewrite, SpaceTrees.mapTrees,
          hroot]
      have hattach : DockForest.Attach (forest.setTabs sourceTabs (items.eraseIdx sourceIndex)
          nextSelected) target (.tabs removed.nodes.next [item] (some item)) _ := .root hrootNow
      have hlast := (hplaced.simplifySpaceStructure source).simplifySpaceStructure target
      rw [← hop]
      exact ⟨_, DockForest.Step.move [] [source, target] rfl (hdetach nextSelected)
        (items_tabs _ _ _) hattach (by simp) (by simp) (by simp)
        (by simp), hlast⟩

end OpenGpui.Docking.DockGraph
