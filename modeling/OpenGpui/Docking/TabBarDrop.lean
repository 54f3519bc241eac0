/-
Dropping an item on a tab bar: where it lands, what the other tabs look like after,
and which tab is selected.
-/
import OpenGpui.Docking.StackFrame
import OpenGpui.Docking.Conservation

namespace OpenGpui.Docking

open List DockForest SlotMap Nat

section Lists

variable {α : Type} [DecidableEq α] {items front back : List α} {item : α}

/-- The list with `item` put before what was at `index`; an index past the end means the end. -/
def landAt (items : List α) (index : Nat) (item : α) : List α :=
  (items.take index).erase item ++ item :: (items.drop index).erase item

omit [DecidableEq α] in
theorem insertIdx_clamped (items : List α) (index : Nat) (item : α) :
    items.insertIdx (min index items.length) item =
      items.take index ++ item :: items.drop index := by
  induction items generalizing index with
  | nil => simp
  | cons first rest ih =>
    cases index with
    | zero => simp
    | succ index =>
      simp only [length_cons, succ_min_succ, insertIdx_succ_cons, ih,
        take_succ_cons, drop_succ_cons, cons_append]

theorem landAt_of_not_mem (h : item ∉ items) (index : Nat) :
    items.insertIdx (min index items.length) item = landAt items index item := by
  rw [insertIdx_clamped, landAt, erase_of_not_mem fun hmem => h (mem_of_mem_take hmem),
    erase_of_not_mem fun hmem => h (mem_of_mem_drop hmem)]

variable {index : Nat}

section

variable (hfront : item ∉ front)

include hfront

/-- A slot up to the place of the item itself leaves what is before it. -/
theorem landAt_left (hindex : index ≤ front.length) : landAt (front ++ item :: back) index item =
      front.take index ++ item :: (front.drop index ++ back) := by
  rw [landAt, take_append_of_le_length hindex, drop_append_of_le_length hindex,
    erase_of_not_mem fun hmem => hfront (mem_of_mem_take hmem),
    erase_append_right _ fun hmem => hfront (mem_of_mem_drop hmem),
    erase_cons_head]

/-- A slot past the place of the item itself counts the item among those before it. -/
theorem landAt_right (hback : item ∉ back) (hindex : front.length < index) :
    landAt (front ++ item :: back) index item = (front ++ back.take (index - front.length - 1)) ++
        item :: back.drop (index - front.length - 1) := by
  obtain ⟨more, rfl⟩ : ∃ more, index = front.length + (more + 1) :=
    ⟨index - front.length - 1, by omega⟩
  have hmore : front.length + (more + 1) - front.length - 1 = more := by omega
  rw [landAt, take_length_add_append, drop_length_add_append, take_succ_cons,
    drop_succ_cons, erase_append_right _ hfront, erase_cons_head,
    erase_of_not_mem fun hmem => hback (mem_of_mem_drop hmem), hmore]

/-- The slots on both sides of the item leave it in place. -/
theorem landAt_own (hback : item ∉ back)
    (hindex : index = front.length ∨ index = front.length + 1) :
    landAt (front ++ item :: back) index item = front ++ item :: back := by
  rcases hindex with rfl | rfl
  · rw [landAt_left hfront (le_refl _)]
    simp
  · rw [landAt_right hfront hback (lt_succ_self _)]
    simp

/-- Within one stack the slot moves left once an earlier item has left. -/
theorem landAt_same (hback : item ∉ back) (index : Nat) :
    (front ++ back).insertIdx
        (min (if front.length < index then index - 1 else index) (front ++ back).length) item =
      landAt (front ++ item :: back) index item := by
  rw [insertIdx_clamped]
  split
  · next hright =>
    obtain ⟨more, rfl⟩ : ∃ more, index = front.length + (more + 1) :=
      ⟨index - front.length - 1, by omega⟩
    have hmore : front.length + (more + 1) - front.length - 1 = more := by omega
    have hless : front.length + (more + 1) - 1 = front.length + more := by omega
    rw [landAt_right hfront hback hright, hmore, hless, take_length_add_append,
      drop_length_add_append]
  · next hleft =>
    have hle : index ≤ front.length := Nat.le_of_not_lt hleft
    rw [landAt_left hfront hle, take_append_of_le_length hle, drop_append_of_le_length hle]

end

/-- A list without repetitions around the place of one of its items. -/
theorem split_at_findIdx (hnodup : items.Nodup) (hindex : items.findIdx? (· == item) = some index) :
    ∃ front back, items = front ++ item :: back ∧ front.length = index
      ∧ items.eraseIdx index = front ++ back ∧ items.erase item = front ++ back
      ∧ item ∉ front ∧ item ∉ back := by
  obtain ⟨hlt, hitem, -⟩ := findIdx?_eq_some_iff_getElem.mp hindex
  have hget : items[index] = item := by simpa using hitem
  have hsplit : items = items.take index ++ item :: items.drop (index + 1) := by
    rw [← hget, ← drop_eq_getElem_cons hlt, take_append_drop]
  have hapart := hnodup
  rw [hsplit, nodup_append, nodup_cons] at hapart
  obtain ⟨-, ⟨hback, -⟩, hdisjoint⟩ := hapart
  have hfront : item ∉ items.take index := fun hmem =>
    hdisjoint item hmem item mem_cons_self rfl
  refine ⟨items.take index, items.drop (index + 1), hsplit, by simp [hlt.le],
    eraseIdx_eq_take_drop_succ _ _, ?_, hfront, hback⟩
  conv_lhs => rw [hsplit]
  rw [erase_append_right _ hfront, erase_cons_head]

end Lists

namespace DockGraph

variable {self after next : DockGraph} {forest : DockForest} {item : DockItemId}
  {source target : DockSpaceId} {tabs sourceTabs : DockNodeId} {insertIndex sourceIndex : Nat}
  {items own : List DockItemId} {selected ownSelected : Option DockItemId}

theorem insertItemIntoTabsAt_some (hget : self.nodes.get tabs = some (.tabs own ownSelected))
    (hnew : item ∉ own) (index : Nat) :
    self.insertItemIntoTabsAt tabs item (some index) none =
      (true, (self.setNode tabs (.tabs (own.insertIdx (min index own.length) item)
        (some item))).recordTabSelection tabs item) := by
  simp [insertItemIntoTabsAt, hget, hnew]

/-- A stack with a place in the graph and its items. -/
structure Stands (graph : DockGraph) (forest : DockForest) (tabs : DockNodeId)
    (items : List DockItemId) (selected : Option DockItemId) : Prop where
  leaf : forest.HasLeaf (tabs, items)
  get : graph.nodes.get tabs = some (.tabs items selected)

/-- Overwriting one stack and simplifying leaves it, and every other stack, standing. -/
theorem Holds.overwriteStack (h : self.Holds forest) (hmem : tabs ∈ (forest target).ids)
    (hget : self.nodes.get tabs = some (.tabs own ownSelected)) {merged : List DockItemId}
    (hmerged : merged ≠ []) (item : DockItemId) (source : DockSpaceId) :
    ∃ last, (((self.setNode tabs (.tabs merged (some item))).recordTabSelection tabs
        item).simplifySpacesAfterMove source target).Holds last
      ∧ (((self.setNode tabs (.tabs merged (some item))).recordTabSelection tabs
        item).simplifySpacesAfterMove source target).Stands last tabs merged (some item)
      ∧ ∀ other otherItems otherSelected, other ≠ tabs → otherItems ≠ [] →
          self.Stands forest other otherItems otherSelected →
          (((self.setNode tabs (.tabs merged (some item))).recordTabSelection tabs
            item).simplifySpacesAfterMove source target).Stands last other otherItems
              otherSelected := by
  have hsub := h.tabs_mem hmem hget
  have hput : ((self.setNode tabs (.tabs merged (some item))).recordTabSelection tabs item).Holds
      (forest.setTabs tabs merged (some item)) :=
    (h.setTabs hget merged (some item)).of_eq rfl rfl rfl rfl
  have hkept := simplifySpacesAfterMove_keepsStacks
    ((self.setNode tabs (.tabs merged (some item))).recordTabSelection tabs item) source target
  refine ⟨_, hput.simplifySpacesAfterMove source target, ⟨?_, ?_⟩, ?_⟩
  · exact hasLeaf_simplifySpaces
      ((h.proper.hasLeaf_setTabs hsub merged (some item) _).mpr (.inl rfl)) hmerged _
  · exact (hkept.tabs.tabs _ _ _).mpr (get_set_self _ hget)
  · intro other otherItems otherSelected hne hitems hother
    refine ⟨?_, ?_⟩
    · exact hasLeaf_simplifySpaces ((h.proper.hasLeaf_setTabs hsub merged (some item) _).mpr (.inr
        ⟨hother.leaf, hne⟩)) hitems _
    · refine (hkept.tabs.tabs _ _ _).mpr ?_
      simp only [recordTabSelection_nodes, setNode_nodes]
      rw [get_set_ne _ _ (Ne.symm hne), hother.get]

theorem landAt_ne_nil (items : List DockItemId) (index : Nat) (item : DockItemId) :
    landAt items index item ≠ [] := by
  simp [landAt]

/-- The mutation behind a drop on a tab bar. -/
theorem moveItem_tabBar (h : self.Holds forest) (hvalid : forest.Valid)
    (hfind : self.findItemInSpace source item = some (sourceTabs, sourceIndex))
    (hop : self.moveItemBetweenSpaces source item target (.tabBar tabs insertIndex)
      = (true, next)) :
    ∃ items selected own ownSelected last,
      self.Stands forest sourceTabs items selected ∧ self.Stands forest tabs own ownSelected
      ∧ next.Holds last ∧ next.Stands last tabs (landAt own insertIndex item) (some item)
      ∧ (sourceTabs ≠ tabs → item ∉ own ∧ (items.erase item ≠ [] →
          ∃ nextSelected, next.Stands last sourceTabs (items.erase item) nextSelected)) := by
  obtain ⟨items, selected, hsub, hitem, hindex⟩ := h.findItemInSpace_eq_some hfind
  obtain ⟨nextSelected, removed, hremove, hholds, hnodes⟩ := h.removeItemFromTabs hsub hitem
  have hleaf : forest.HasLeaf (sourceTabs, items) := hasLeaf_iff.mpr ⟨source, _, hsub⟩
  have hnodup : items.Nodup := hvalid.items.leaf_nodup hleaf
  obtain ⟨front, back, hsplit, hlength, herased, hremoved, hfront, hback⟩ :=
    split_at_findIdx hnodup hindex
  have hsourceGet := h.get_tabs hsub
  have hproper := h.proper
  simp only [moveItemBetweenSpaces, hfind, hremove] at hop
  obtain ⟨hfound, hop⟩ := of_guard hop
  obtain ⟨htabsNode, hop⟩ := of_guard hop
  obtain ⟨hmoves, hop⟩ := of_guard hop
  have hmem := mem_ids_of_rootForNode h hfound
  have hmem' : tabs ∈ (forest.setTabs sourceTabs (items.eraseIdx sourceIndex) nextSelected
      target).ids := by
    rwa [hproper.ids_setTabs hsub]
  obtain ⟨own, ownSelected, hget⟩ := isTabsNode_iff.mp (by simpa using htabsNode)
  have hstands : self.Stands forest tabs own ownSelected :=
    ⟨hasLeaf_iff.mpr ⟨target, _, h.tabs_mem hmem hget⟩, hget⟩
  have hnew := landAt_ne_nil own insertIndex item
  by_cases hsame : sourceTabs = tabs
  · -- within one stack the item is put back into what is left of it
    subst hsame
    obtain rfl : source = target := hproper.apart (SpaceTrees.mem_ids_iff.mpr ⟨_, hsub, rfl⟩) hmem
    rw [hsourceGet] at hget
    cases hget
    have hrest : removed.nodes.get sourceTabs = some (.tabs (front ++ back) nextSelected) := by
      rw [hnodes, get_set_self _ hsourceGet, herased]
    have hgone : item ∉ front ++ back := by simp [hfront, hback]
    have hland := landAt_same hfront hback insertIndex
    rw [hlength, ← hsplit] at hland
    rw [insertItemIntoTabsAt_some hrest hgone] at hop
    simp only [true_and, hland, Prod.mk.injEq] at hop
    obtain ⟨last, hlast, hput, -⟩ := hholds.overwriteStack hmem' hrest hnew item source
    rw [hop] at hlast hput
    exact ⟨items, selected, items, selected, last, ⟨hleaf, hsourceGet⟩, hstands, hlast,
      hput, fun hne => absurd rfl hne⟩
  · have hdifferent : ¬ (source = target ∧ sourceTabs = tabs) := fun hboth =>
      hsame hboth.2
    have hgone : item ∉ own := by
      intro hin
      have heq := hvalid.items.leaf_unique hleaf hstands.leaf (mem_of_getElem? hitem) hin
      exact hsame (congrArg Prod.fst heq)
    have hrest : removed.nodes.get tabs = some (.tabs own ownSelected) := by
      rw [hnodes, get_set_ne _ _ hsame, hget]
    rw [insertItemIntoTabsAt_some hrest hgone] at hop
    simp only [hdifferent, false_and, if_false, Prod.mk.injEq, true_and,
      landAt_of_not_mem hgone] at hop
    obtain ⟨last, hlast, hput, hothers⟩ := hholds.overwriteStack hmem' hrest hnew item source
    rw [hop] at hlast hput hothers
    refine ⟨items, selected, own, ownSelected, last, ⟨hleaf, hsourceGet⟩, hstands, hlast,
      hput, fun _ => ⟨hgone, fun hleft => ⟨nextSelected, hothers _ _ _ hsame hleft ?_⟩⟩⟩
    rw [hremoved, ← herased]
    exact ⟨(hproper.hasLeaf_setTabs hsub _ nextSelected _).mpr (.inl rfl), by
      rw [hnodes, get_set_self _ hsourceGet]⟩

/-- The slots that keep an item in place are the two beside it in its own stack. -/
theorem keepsPlace_tabBar
    (hfind : self.findItemInSpace source item = some (sourceTabs, sourceIndex)) :
    self.keepsPlace (.moveItem source item target (.tabBar tabs insertIndex)) = true ↔
      source = target ∧ sourceTabs = tabs ∧
        (insertIndex = sourceIndex ∨ insertIndex = sourceIndex + 1) := by
  simp [keepsPlace, moveItemKeepsPlace, hfind, eq_comm (a := tabs)]

/-- An item dropped on a tab bar lands between its new neighbours, every other tab keeps its
place among the rest, and the item is selected; only a drop on one of the two slots beside the
item in its own stack reports no change, and leaves everything as it was. -/
theorem tabBar_drop_lands {changed : Bool} (hvalid : self.validate = .ok ())
    (hop : self.applyOpChecked (.moveItem source item target (.tabBar tabs insertIndex))
      = .ok (changed, after)) :
    ∃ sourceTabs sourceIndex items selected own ownSelected nextSelected,
      self.findItemInSpace source item = some (sourceTabs, sourceIndex)
      ∧ self.nodes.get sourceTabs = some (.tabs items selected)
      ∧ self.nodes.get tabs = some (.tabs own ownSelected)
      ∧ after.nodes.get tabs = some (.tabs
          ((own.take insertIndex).erase item ++ item :: (own.drop insertIndex).erase item)
          nextSelected)
      ∧ (changed = false ↔ source = target ∧ sourceTabs = tabs ∧
          (insertIndex = sourceIndex ∨ insertIndex = sourceIndex + 1))
      ∧ (if changed then nextSelected = some item else after = self)
      ∧ (sourceTabs ≠ tabs → item ∉ own ∧ (items.erase item ≠ [] →
          ∃ otherSelected, after.nodes.get sourceTabs
            = some (.tabs (items.erase item) otherSelected))) := by
  obtain ⟨forest, h, hforest⟩ := validate_ok_iff.mp hvalid
  obtain ⟨-, hcase⟩ := applyOpChecked_ok hop
  rcases hcase with ⟨_, _, hselect, _⟩ | ⟨hchanged, hsame, hkeeps⟩ | ⟨hchanged, hmoves, hcommits⟩
  · cases hselect
  · -- the slots beside the item itself
    subst hchanged hsame
    simp only [allowsNoop, Bool.false_eq_true, or_false] at hkeeps
    cases hfind : after.findItemInSpace source item with
    | none => simp [keepsPlace, moveItemKeepsPlace, hfind] at hkeeps
    | some found =>
      obtain ⟨sourceTabs, sourceIndex⟩ := found
      have hbeside := (keepsPlace_tabBar hfind).mp hkeeps
      obtain ⟨rfl, rfl, hslot⟩ := id hbeside
      obtain ⟨items, selected, hsub, hitem, hindex⟩ := h.findItemInSpace_eq_some hfind
      have hleaf : forest.HasLeaf (sourceTabs, items) := hasLeaf_iff.mpr ⟨source, selected, hsub⟩
      have hnodup : items.Nodup := hforest.items.leaf_nodup hleaf
      obtain ⟨front, back, hsplit, hlength, -, -, hfront, hback⟩ := split_at_findIdx hnodup hindex
      have hown : landAt items insertIndex item = items := by
        rw [hsplit]
        exact landAt_own hfront hback (hlength ▸ hslot)
      have hget := h.get_tabs hsub
      refine ⟨sourceTabs, sourceIndex, items, selected, items, selected, selected, rfl, hget, hget,
        ?_, by simpa using hslot, by simp, fun hne => absurd rfl hne⟩
      rw [hget, ← landAt, hown]
  · subst hchanged
    obtain ⟨next, happly, rfl⟩ := hcommits.applied
    have hmove : self.moveItemBetweenSpaces source item target (.tabBar tabs insertIndex)
        = (true, next) := happly
    cases hfind : self.findItemInSpace source item with
    | none => simp [moveItemBetweenSpaces, hfind] at hmove
    | some found =>
      obtain ⟨sourceTabs, sourceIndex⟩ := found
      obtain ⟨items, selected, own, ownSelected, last, hsource, htarget, hlast, hput, hleft⟩ :=
        moveItem_tabBar h hforest hfind hmove
      rw [Bool.eq_false_iff, ne_eq, keepsPlace_tabBar hfind] at hmoves
      refine ⟨sourceTabs, sourceIndex, items, selected, own, ownSelected, some item, rfl,
        hsource.get, htarget.get, hlast.finalize_get_tabs hput.leaf hput.get _,
        by simpa using hmoves, by simp, ?_⟩
      intro hne
      refine ⟨(hleft hne).1, fun hitems => ?_⟩
      obtain ⟨nextSelected, hstands⟩ := (hleft hne).2 hitems
      exact ⟨nextSelected, hlast.finalize_get_tabs hstands.leaf hstands.get _⟩

end DockGraph

theorem ConservationWitness.nestedGraph_right :
    nestedGraph.nodes.get 3 = some (.tabs ["c", "d"] (some "c")) := by decide

open ConservationWitness in
/-- A drop beside the item's own place reports no change and selects nothing. -/
theorem tabBar_drop_in_place :
    ¬ ∀ (self after : DockGraph) (source target : DockSpaceId) (item : DockItemId)
        (tabs : DockNodeId) (insertIndex : Nat) (changed : Bool),
      self.validate = .ok () →
      self.applyOpChecked (.moveItem source item target (.tabBar tabs insertIndex))
        = .ok (changed, after) →
      ∃ items, after.nodes.get tabs = some (.tabs items (some item)) := by
  intro hall
  obtain ⟨items, hget⟩ := hall nestedGraph nestedGraph "main" "main" "d" 3 1 false
    nestedGraph_valid rfl
  rw [nestedGraph_right] at hget
  simp at hget

open ConservationWitness in
theorem tabBar_drop_lands_between : ∃ after, nestedGraph.validate = .ok ()
      ∧ nestedGraph.applyOpChecked (.moveItem "main" "a" "main" (.tabBar 3 1)) = .ok (true, after)
      ∧ after.nodes.get 3 = some (.tabs ["c", "a", "d"] (some "a")) := by
  obtain ⟨after, hop⟩ : ∃ after,
      nestedGraph.applyOpChecked (.moveItem "main" "a" "main" (.tabBar 3 1)) = .ok (true, after) :=
    DockGraph.exists_of_changes (by decide +kernel)
  obtain ⟨_, _, _, _, own, _, nextSelected, -, -, hown, hget, -, hselected, -⟩ :=
    DockGraph.tabBar_drop_lands nestedGraph_valid hop
  rw [nestedGraph_right] at hown
  cases hown
  obtain rfl : nextSelected = some "a" := by simpa using hselected
  exact ⟨after, nestedGraph_valid, hop, hget⟩

end OpenGpui.Docking
