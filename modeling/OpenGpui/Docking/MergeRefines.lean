/-
The mutations behind a merge of two spaces do to a graph what the merge does to the
forest the graph holds.
-/
import OpenGpui.Docking.MergeForest

namespace OpenGpui.Docking

open List Bool Function KeyMap Option

open DockTree

/-- Items of which a stack holds none are put at its end one after another. -/
theorem insertMissingItems_length {next items : List DockItemId} (hnodup : next.Nodup)
    (hnew : ∀ item ∈ next, item ∉ items) :
    insertMissingItems next items.length items = items ++ next := by
  induction next generalizing items with
  | nil => simp [insertMissingItems]
  | cons item rest ih =>
    rw [nodup_cons] at hnodup
    have hcontains : items.contains item = false := by simpa using hnew item mem_cons_self
    have hinsert : items.insertIdx items.length item = items ++ [item] := by simp
    have hlength : items.length + 1 = (items ++ [item]).length := by simp
    rw [insertMissingItems, hcontains, hinsert, hlength]
    simp only [false_eq_true, if_false]
    rw [ih hnodup.2]
    · rw [append_assoc, singleton_append]
    · intro other hother hin
      rcases mem_append.mp hin with hold | hsame
      · exact hnew other (mem_cons_of_mem _ hother) hold
      · rw [mem_singleton] at hsame
        exact hnodup.1 (hsame ▸ hother)

/-- A well-formed tree has a stack. -/
theorem DockTree.WellFormed.leaves_ne_nil {tree : DockTree} (h : tree.WellFormed) :
    tree.leaves ≠ [] := by
  induction tree using DockTree.induction with
  | tabs id items selected => simp
  | floating id child ih =>
    rw [leaves_floating]
    exact ih (h.child (mem_singleton_self child))
  | split id axis kids fractions ih =>
    have htwo : 2 ≤ (kids.map DockTree.id).length := (h _ (mem_subtrees_self _)).1
    rw [length_map] at htwo
    obtain ⟨first, hfirst⟩ := exists_mem_of_length_pos (by omega : 0 < kids.length)
    rw [leaves_split]
    intro hnil
    exact ih first hfirst (h.child hfirst) (flatMap_eq_nil_iff.mp hnil first hfirst)

namespace DockGraph

variable {self next : DockGraph} {forest : DockForest} {source target space : DockSpaceId}

variable (h : self.Holds forest)

include h

/-- A graph holds one forest at most. -/
theorem Holds.unique {other : DockForest} (h' : self.Holds other) : forest = other := by
  funext space
  have hroot : (forest space).root = (other space).root := by
    have hids : (forest space).root.map DockTree.id = (other space).root.map DockTree.id :=
      (h.root space).symm.trans (h'.root space)
    cases hfirst : (forest space).root with
    | none =>
      rw [hfirst] at hids
      exact (map_eq_none_iff.mp hids.symm).symm
    | some tree =>
      rw [hfirst] at hids
      obtain ⟨tree', hsecond, hid⟩ := map_eq_some_iff.mp hids.symm
      rw [hsecond, (h.stored space tree (by simp [SpaceTrees.trees, hfirst])).unique
        (h'.stored space tree' (by simp [SpaceTrees.trees, hsecond])) hid.symm]
  have hfloatings : (forest space).floatings = (other space).floatings := by
    have hcontainers := (h.floatings space).symm.trans (h'.floatings space)
    apply ext_getElem
    · simpa using congrArg List.length hcontainers
    · intro index hlow hhigh
      have hcontainer : (forest space).floatings[index].container =
          (other space).floatings[index].container := by
        simpa [hlow, hhigh] using congrArg (fun entries => entries[index]?) hcontainers
      have htree : (forest space).floatings[index].tree = (other space).floatings[index].tree := by
        apply (h.stored space _ ?_).unique (h'.stored space _ ?_)
        · exact congrArg DockFloatingContainer.node hcontainer
        · exact mem_append_right _ (mem_map_of_mem (getElem_mem hlow))
        · exact mem_append_right _ (mem_map_of_mem (getElem_mem hhigh))
      have hbounds : (forest space).floatings[index].bounds =
          (other space).floatings[index].bounds :=
        congrArg DockFloatingContainer.bounds hcontainer
      cases hentry : (forest space).floatings[index]
      cases hentry' : (other space).floatings[index]
      rw [hentry, hentry'] at htree hbounds
      rw [FloatingTree.mk.injEq]
      exact ⟨htree, hbounds⟩
  have hcentral : (forest space).central = (other space).central :=
    (h.central space).symm.trans (h'.central space)
  cases hfirst : forest space
  cases hsecond : other space
  rw [hfirst, hsecond] at hroot hfloatings hcentral
  cases hroot
  cases hfloatings
  cases hcentral
  rfl

theorem Holds.valid_iff : self.validate = .ok () ↔ forest.Valid := by
  constructor
  · intro hvalid
    obtain ⟨other, hother, hvalidOther⟩ := validate_ok hvalid
    rwa [h.unique hother]
  · exact h.validate_complete

/-- A space of a valid graph has stacks below its root exactly when it has a root. -/
theorem Holds.rootTabsInSpace_isEmpty_iff (hvalid : forest.Valid) :
    (self.rootTabsInSpace space).isEmpty = true ↔ (forest space).root = none := by
  rw [rootTabsInSpace, h.root]
  cases hroot : (forest space).root with
  | none => simp
  | some tree =>
    have hmem : tree ∈ (forest space).trees := by simp [SpaceTrees.trees, hroot]
    have hstored := h.stored space tree hmem
    simp only [map_some]
    rw [self.collectTabsInSubtreeInto_eq hstored
      (self.ids_length_le_fuel hstored (h.tree_nodup hmem))]
    simpa using (hvalid.root space tree hroot).leaves_ne_nil

theorem Holds.eraseFloatings (space : DockSpaceId) :
    ({ self with floatings := self.floatings.erase space } : DockGraph).Holds
      (forest.setFloatings space []) := by
  have hsub : ({ forest space with floatings := [] } : SpaceTrees).ids.Sublist
      (forest space).ids := by
    rw [SpaceTrees.ids, SpaceTrees.ids, SpaceTrees.trees, SpaceTrees.trees, flatMap_append,
      flatMap_append]
    exact List.Sublist.append (List.Sublist.refl _) (by simp)
  apply h.update
  · exact h.root space
  · exact fun other _ => rfl
  · rw [floatingContainers, get_erase, if_pos rfl]
    rfl
  · intro other hother
    rw [floatingContainers, get_erase, if_neg (Ne.symm hother)]
    rfl
  · exact h.central space
  · exact fun other _ => rfl
  · intro tree htree
    apply h.stored space tree
    rw [SpaceTrees.trees, map_nil, append_nil] at htree
    exact mem_append_left _ htree
  · exact fun other _ key _ => rfl
  · exact hsub.nodup (h.nodup space)
  · exact fun other hother key hkey hin => hother (h.apart hin (hsub.subset hkey))

section

variable (hne : source ≠ target)

include hne

/-- Putting the containers of one space behind those of another one. -/
theorem Holds.moveFloatings {sourceFloatings : List DockFloatingContainer}
    (hget : self.floatingContainers source = sourceFloatings) :
    ({ self with
        floatings := (self.floatings.erase source).insert target
          (({ self with floatings := self.floatings.erase source } :
            DockGraph).floatingContainers target ++ sourceFloatings) } : DockGraph).Holds
      (forest.moveFloatings source target) := by
  have htaken := h.eraseFloatings source
  have htargetTaken : forest.setFloatings source [] target = forest target :=
    update_of_ne hne.symm _ _
  have hnodup := h.nodup source
  rw [SpaceTrees.ids, SpaceTrees.trees, flatMap_append, nodup_append] at hnodup
  have hcome : ∀ key ∈ ((forest source).floatings.map FloatingTree.tree).flatMap ids,
      key ∈ (forest source).ids := by
    intro key hkey
    rw [SpaceTrees.ids, SpaceTrees.trees, flatMap_append]
    exact mem_append_right _ hkey
  have hids : ({ forest target with
        floatings := (forest target).floatings ++ (forest source).floatings } : SpaceTrees).ids =
      (forest target).ids ++ ((forest source).floatings.map FloatingTree.tree).flatMap ids := by
    rw [SpaceTrees.ids, SpaceTrees.ids, SpaceTrees.trees, SpaceTrees.trees, map_append,
      ← append_assoc, flatMap_append]
  rw [DockForest.moveFloatings]
  conv_rhs => rw [DockForest.setFloatings]
  rw [htargetTaken]
  apply htaken.update
  · exact h.root target
  · exact fun other _ => rfl
  · rw [floatingContainers, get_insert, if_pos rfl, getD_some, htaken.floatings,
      htargetTaken, ← hget, h.floatings, map_append]
  · intro other hother
    rw [floatingContainers, get_insert, if_neg (Ne.symm hother)]
    rfl
  · exact h.central target
  · exact fun other _ => rfl
  · intro tree htree
    rw [SpaceTrees.trees, map_append, ← append_assoc] at htree
    rcases mem_append.mp htree with hown | hin
    · exact h.stored target tree hown
    · exact h.stored source tree (mem_append_right _ hin)
  · exact fun other _ key _ => rfl
  · rw [hids, nodup_append]
    refine ⟨h.nodup target, hnodup.2.1, ?_⟩
    rintro key hown other hin rfl
    exact hne (h.apart (hcome key hin) hown)
  · intro other hother key hkey hin
    rw [hids, mem_append] at hkey
    by_cases hsource : other = source
    · subst hsource
      rw [DockForest.setFloatings, update_self, SpaceTrees.ids, SpaceTrees.trees,
        map_nil, append_nil] at hin
      rcases hkey with hown | hcame
      · apply hne
        refine h.apart ?_ hown
        rw [SpaceTrees.ids, SpaceTrees.trees, flatMap_append]
        exact mem_append_left _ hin
      · exact hnodup.2.2 key hin key hcame rfl
    · rw [DockForest.setFloatings, update_of_ne hsource] at hin
      rcases hkey with hown | hcame
      · exact hother (h.apart hin hown)
      · exact hsource (h.apart hin (hcome key hcame))

/-- A merge of the containers of two spaces does nothing when there is nothing to move. -/
theorem Holds.mergeSpaceFloatingForestInto {changed : Bool}
    (hmerge : self.mergeSpaceFloatingForestInto source target = (changed, next)) :
    (changed = false ∧ (forest source).floatings = []) ∨ (changed = true ∧ next.Holds
        (((forest.moveFloatings source target).simplifySpace source).simplifySpace target)) := by
  rw [DockGraph.mergeSpaceFloatingForestInto, if_neg hne] at hmerge
  have hcontainers := h.floatings source
  cases hget : self.floatings[source]? with
  | none =>
    rw [floatingContainers, hget] at hcontainers
    rw [hget] at hmerge
    cases hmerge
    exact .inl ⟨rfl, map_eq_nil_iff.mp hcontainers.symm⟩
  | some sourceFloatings =>
    have hself : self.floatingContainers source = sourceFloatings := by
      rw [floatingContainers, hget, getD_some]
    simp only [hget] at hmerge
    by_cases hempty : sourceFloatings.isEmpty = true
    · rw [if_pos hempty] at hmerge
      cases hmerge
      rw [hself, isEmpty_iff.mp hempty] at hcontainers
      exact .inl ⟨rfl, map_eq_nil_iff.mp hcontainers.symm⟩
    · rw [if_neg hempty] at hmerge
      obtain ⟨rfl, rfl⟩ := hmerge
      exact .inr ⟨rfl, ((h.moveFloatings hne hself).simplifySpaceStructure
        source).simplifySpaceStructure target⟩

/-- Moving a root to a space without trees. -/
theorem Holds.moveRootToEmptySpace {tree : DockTree} (htree : (forest source).root = some tree)
    (hroot : (forest target).root = none) (hfloatings : (forest target).floatings = []) :
    ∃ after, self.moveRootToEmptySpace source target = (true, after) ∧
      after.Holds (((((forest.removeRoot source).placeRoot target tree).simplifySpace
        source)).simplifySpace target) := by
  have hsourceRoot : self.root source = some tree.id := by rw [h.root, htree, map_some]
  have htargetRoot : self.root target = none := by rw [h.root, hroot, map_none]
  have hcontainers : self.floatingContainers target = [] := by
    rw [h.floatings, hfloatings, map_nil]
  have hmem : tree ∈ (forest source).trees := by simp [SpaceTrees.trees, htree]
  have hdetached : (self.removeRoot source).Detached (forest.removeRoot source) tree :=
    ⟨h.stored source tree hmem, h.tree_nodup hmem,
      fun space key hkey => h.removeRoot_fresh htree hkey space⟩
  have hplaced := (h.removeRoot source).setRootForEmptySpace hdetached target
  refine ⟨_, ?_, (hplaced.simplifySpaceStructure source).simplifySpaceStructure target⟩
  rw [DockGraph.moveRootToEmptySpace, if_neg (by simp [hne, htargetRoot, hcontainers]), hsourceRoot]
  rfl

end

/-- Emptying the root stack of a space and giving up the root. -/
theorem Holds.clearRootTabs {tabs : DockNodeId}
    {items : List DockItemId} {selected : Option DockItemId}
    (htree : (forest space).root = some (.tabs tabs items selected)) :
    ((self.setNode tabs (.tabs [] none)).removeRoot space).Holds (forest.removeRoot space) := by
  have hmem : .tabs tabs items selected ∈ (forest space).trees := by
    simp [SpaceTrees.trees, htree]
  have hholds := (h.removeRoot space).setTabs (h.get_tabs (tree_mem_subtrees hmem)) [] none
  have hsame : (forest.removeRoot space).setTabs tabs [] none = forest.removeRoot space := by
    funext other
    apply SpaceTrees.rewrite_of_not_mem
    exact h.removeRoot_fresh htree (by simp) other
  rw [DockForest.setTabs] at hsame
  rw [hsame] at hholds
  exact hholds

/-- Emptying the root stack of a space into a stack of another space. -/
theorem Holds.moveRootTabs (hdistinct : forest.ItemsDistinct)
    {tabs targetTabs : DockNodeId} {items own : List DockItemId}
    {selected ownSelected : Option DockItemId} (hne : source ≠ target)
    (htree : (forest source).root = some (.tabs tabs items selected)) (hitems : items ≠ [])
    (htarget : .tabs targetTabs own ownSelected ∈ (forest target).subtrees) :
    ∃ next after, self.moveRootTabsToNonEmptySpace source tabs target targetTabs = (true, after) ∧
      after.Holds ((((forest.removeRoot source).setTabs targetTabs (own ++ items)
        next).simplifySpace source).simplifySpace target) := by
  have hmem : .tabs tabs items selected ∈ (forest source).trees := by
    simp [SpaceTrees.trees, htree]
  have hsub := tree_mem_subtrees hmem
  have hget := h.get_tabs hsub
  have hkey : targetTabs ∈ (forest target).ids := SpaceTrees.mem_ids_iff.mpr ⟨_, htarget, rfl⟩
  have hfound : (self.rootForNodeInSpace target targetTabs).isNone = false := by
    rw [← not_eq_true, h.rootForNodeInSpace_isNone_iff]
    exact fun hnot => hnot hkey
  have htabs : self.isTabsNode targetTabs = true := by
    rw [isTabsNode, h.get_tabs htarget]
  have hfoundSource : (self.rootForNodeInSpace source tabs).isNone = false := by
    rw [← not_eq_true, h.rootForNodeInSpace_isNone_iff]
    exact fun hnot => hnot (SpaceTrees.mem_ids_iff.mpr ⟨_, hsub, rfl⟩)
  have hempty : items.isEmpty = false := by simpa using hitems
  have hroot : ((self.takeTabSelectionState tabs).2.setNode tabs (.tabs [] none)).root source =
      some tabs := by
    have heq := h.root source
    rw [htree] at heq
    exact heq
  have htake : self.takeTabsFromSpaceWithoutSimplify source tabs =
      some (⟨items, selected, (self.takeTabSelectionState tabs).1⟩,
        ((self.takeTabSelectionState tabs).2.setNode tabs (.tabs [] none)).removeRoot source) := by
    simp only [takeTabsFromSpaceWithoutSimplify, takeTabsFromSpaceWithSimplify, hfoundSource, hget,
      hempty, hroot, Bool.false_eq_true, if_false, if_true]
  have hstart : (self.takeTabSelectionState tabs).2.Holds forest := h.of_eq rfl rfl rfl rfl
  have htaken := hstart.clearRootTabs htree
  have htargetTaken : .tabs targetTabs own ownSelected ∈
      (forest.removeRoot source target).subtrees := by
    rwa [DockForest.removeRoot, update_of_ne hne.symm]
  have hleaf : forest.HasLeaf (tabs, items) := DockForest.hasLeaf_iff.mpr ⟨source, selected, hsub⟩
  have hnew : ∀ item ∈ items, item ∉ own := by
    intro item hitem hown
    exact hne (hdistinct.apart
      (SpaceTrees.mem_items_iff.mpr ⟨_, SpaceTrees.mem_leaves_iff.mpr ⟨_, hsub⟩, hitem⟩)
      (SpaceTrees.mem_items_iff.mpr ⟨_, SpaceTrees.mem_leaves_iff.mpr ⟨_, htarget⟩, hown⟩))
  have hmerged : insertMissingItems items own.length own = own ++ items :=
    insertMissingItems_length (hdistinct.leaf_nodup hleaf) hnew
  have hgetTarget := htaken.get_tabs htargetTaken
  have hinsert : ∃ nextSelected after,
      (((self.takeTabSelectionState tabs).2.setNode tabs (.tabs [] none)).removeRoot
        source).insertItemsIntoTabsAt targetTabs items none selected = (true, after) ∧
      after.Holds ((forest.removeRoot source).setTabs targetTabs (own ++ items) nextSelected) := by
    simp only [DockGraph.insertItemsIntoTabsAt, hempty, hgetTarget, Bool.false_eq_true, if_false,
      getD_none, Nat.min_self, hmerged]
    cases selected with
    | none => exact ⟨ownSelected, _, rfl, htaken.setTabs hgetTarget _ _⟩
    | some item =>
      exact ⟨some item, _, rfl, (htaken.setTabs hgetTarget _ _).of_eq rfl rfl rfl rfl⟩
  obtain ⟨nextSelected, after, hinserted, hholds⟩ := hinsert
  refine ⟨nextSelected, _, ?_, (hholds.simplifySpaceStructure source).simplifySpaceStructure target⟩
  simp only [moveRootTabsToNonEmptySpace, htabs, hfound, htake, hinserted, Bool.not_true,
    Bool.false_eq_true, if_false]
  rfl

end DockGraph

end OpenGpui.Docking
