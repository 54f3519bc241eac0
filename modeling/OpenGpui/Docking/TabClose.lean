/-
Runs of selections, openings, moves and closes: the stamps of every stack keep standing
for what the run recorded, and closing the selected tab returns to the latest of it.
-/
import OpenGpui.Docking.TabHistory
import OpenGpui.Docking.TabBarDrop

namespace OpenGpui.Docking

open DockForest KeyMap Option List Nat

/-- The operations that only touch single tabs. -/
def DockOp.isTabOp : DockOp → Bool
  | .selectTab _ _ | .closeItem _ _ | .openItem _ _ _ _ | .moveItem _ _ _ _ => true
  | _ => false

/-- The use an operation records: a selection, or an insertion into a stack that exists. -/
def DockOp.recordedUse (op : DockOp) (changed : Bool) : Option TabUse :=
  match op with
  | .selectTab tabs item => some (tabs, item)
  | .openItem _ (some tabs) item _ => some (tabs, item)
  | .moveItem _ item _ (.center tabs) | .moveItem _ item _ (.tabBar tabs _) =>
    if changed then some (tabs, item) else none
  | _ => none

namespace DockGraph

variable {self after next : DockGraph} {log : List TabUse} {tabs : DockNodeId}
  {item : DockItemId} {items : List DockItemId} {selected : Option DockItemId}
  {space source target : DockSpaceId}

/-- A graph that holds a forest in which every item has one place. -/
def Sound (graph : DockGraph) : Prop :=
  ∃ forest : DockForest, graph.Holds forest ∧ forest.ItemsDistinct

theorem sound_of_validate (h : self.validate = .ok ()) : self.Sound := by
  obtain ⟨forest, hholds, hvalid⟩ := validate_ok_iff.mp h
  exact ⟨forest, hholds, hvalid.items⟩

theorem Sound.finds (h : self.Sound) {index : Nat}
    (hfind : self.findItemInSpace space item = some (tabs, index)) :
    ∃ items selected, self.nodes.get tabs = some (.tabs items selected) ∧
      items[index]? = some item ∧ items.findIdx? (· == item) = some index ∧ items.Nodup := by
  obtain ⟨forest, hholds, hdistinct⟩ := h
  obtain ⟨items, selected, hsub, hitem, hindex⟩ := hholds.findItemInSpace_eq_some hfind
  have hleaf : forest.HasLeaf (tabs, items) := hasLeaf_iff.mpr ⟨space, selected, hsub⟩
  exact ⟨items, selected, hholds.get_tabs hsub, hitem, hindex, hdistinct.leaf_nodup hleaf⟩

theorem StampsHaveRoom.forget (h : self.StampsHaveRoom) (tabs : DockNodeId) (item : DockItemId) :
    (self.forgetTabSelection tabs item).StampsHaveRoom := by
  intro other state hstate
  by_cases heq : tabs = other
  · subst heq
    rw [forgetTabSelection] at hstate
    split at hstate
    · exact h tabs state hstate
    · next own hown =>
      dsimp only at hstate
      split at hstate
      · simp at hstate
      · rw [get_insert, if_pos rfl, some.injEq] at hstate
        subst hstate
        exact h tabs own hown
  · rw [Records.history_forgetTabSelection_ne _ heq] at hstate
    exact h other state hstate

namespace Records

variable {changed : Bool} (h : self.Records log)

include h

theorem selectTab (hroom : self.StampsHaveRoom)
    (hget : self.nodes.get tabs = some (.tabs items selected)) (hitem : item ∈ items) (hop :
    self.selectTab tabs item = (changed, next)) :
    next.Records ((tabs, item) :: log) := by
  have hcontains : items.contains item = true := by simpa using hitem
  simp only [DockGraph.selectTab, hget, hcontains, Bool.not_true, Bool.false_eq_true, if_false,
    Prod.mk.injEq] at hop
  rw [← hop.2]
  exact h.put hroom hget hitem (fun other _ => Iff.rfl) (some item)

/-- Taking a found item out of its stack. -/
theorem removeFound (hsound : self.Sound) {index : Nat}
    (hfind : self.findItemInSpace space item = some (tabs, index))
    {removed : DockGraph} (hremove : self.removeItemFromTabs tabs index = (true, removed)) :
    removed.Records log := by
  obtain ⟨items, selected, hget, hitem, hindex, hnodup⟩ := hsound.finds hfind
  have hmem : ∀ other, other ∈ items.eraseIdx index ↔ other ∈ items ∧ other ≠ item :=
    fun other => mem_eraseIdx_findIdx hnodup hindex
  simp only [removeItemFromTabs, hget, hitem] at hremove
  cases hremove
  apply h.take hget
  · rw [hmem]
    exact fun hin => hin.2 rfl
  · intro other hne
    rw [hmem]
    exact and_iff_left hne

variable {index : Option Nat}

theorem insertItemIntoTabsAt (hroom : self.StampsHaveRoom)
    (hop : self.insertItemIntoTabsAt tabs item index none = (true, next)) :
    next.Records ((tabs, item) :: log) := by
  rw [DockGraph.insertItemIntoTabsAt] at hop
  split at hop
  · next items selected hget =>
    simp only [getD_none] at hop
    cases hop
    apply h.put hroom hget
    · split
      · next hin => simpa using hin
      · split
        · exact (mem_insertIdx (min_le_right _ _)).mpr (.inl rfl)
        · simp
    · intro other hne
      split
      · rfl
      · split
        · rw [mem_insertIdx (min_le_right _ _)]
          exact or_iff_right hne
        · simp [hne]
  · cases hop

theorem selectPreferred (tabs : DockNodeId)
    (preferred : Option DockItemId) : (self.selectPreferred tabs preferred).Records log := by
  rw [DockGraph.selectPreferred.eq_def]
  split
  · next preferred items selected hget =>
    split
    · exact h.reselect hget _
    · exact h
  · exact h

theorem closeItem (hsound : self.Sound)
    (hop : self.closeItem space item = (true, next)) : next.Records log := by
  rw [DockGraph.closeItem] at hop
  split at hop
  · cases hop
  · next tabs index hfind =>
    split at hop
    · cases hop
    · next removed hremove =>
      cases hop
      have hremoved := h.removeFound hsound hfind hremove
      exact (hremoved.selectPreferred tabs _).frame (simplifySpaceStructure_keepsStacks _ space)

theorem openItem (hroom : self.StampsHaveRoom)
    {targetTabs : Option DockNodeId} {insertIndex : Option Nat}
    (hop : self.openItem space targetTabs item insertIndex = (true, next)) :
    next.Records
      (((DockOp.openItem space targetTabs item insertIndex).recordedUse true).toList ++ log) := by
  rw [DockGraph.openItem.eq_def] at hop
  split at hop
  · cases hop
  · cases targetTabs with
    | some tabs =>
      simp only at hop
      obtain ⟨_, hop⟩ := of_guard hop
      exact h.insertItemIntoTabsAt hroom hop
    | none =>
      simp only at hop
      obtain ⟨_, hop⟩ := of_guard hop
      cases hop
      exact (h.insertTabs [item] (some item)).frame (setRootForEmptySpace_keepsStacks _ space _)

/-- What an insertion after a removal leaves. -/
theorem moveIntoTabs (hroom : self.StampsHaveRoom)
    (hop : ((self.insertItemIntoTabsAt tabs item index none).1,
      (self.insertItemIntoTabsAt tabs item index none).2.simplifySpacesAfterMove source target) =
        (true, next)) : next.Records ((tabs, item) :: log) := by
  rw [Prod.mk.injEq] at hop
  rw [← hop.2]
  exact (h.insertItemIntoTabsAt hroom (Prod.ext hop.1 rfl)).frame
    (simplifySpacesAfterMove_keepsStacks _ source target)

theorem moveItem (hsound : self.Sound) (hroom : self.StampsHaveRoom)
    {dropTarget : DockGraphDropTarget}
    (hop : self.moveItemBetweenSpaces source item target dropTarget = (true, next)) :
    next.Records
      (((DockOp.moveItem source item target dropTarget).recordedUse true).toList ++ log) := by
  rw [moveItemBetweenSpaces] at hop
  split at hop
  · cases hop
  · next sourceTabs sourceIndex hfind =>
    -- the graph without the item, in every case but the moves that do nothing
    have htake : ∀ removed, self.removeItemFromTabs sourceTabs sourceIndex = (true, removed) →
        removed.Records log ∧ removed.StampsHaveRoom := by
      intro removed hremove
      refine ⟨h.removeFound hsound hfind hremove, ?_⟩
      rw [removeItemFromTabs] at hremove
      split at hremove
      · split at hremove
        · cases hremove
        · cases hremove
          exact @StampsHaveRoom.forget (self.setNode _ _) hroom _ _
      · cases hremove
    cases dropTarget with
    | center tabs | tabBar tabs insertIndex =>
      simp only at hop
      obtain ⟨_, hop⟩ := of_guard hop
      obtain ⟨_, hop⟩ := of_guard hop
      obtain ⟨_, hop⟩ := of_guard hop
      split at hop
      · cases hop
      · next removed hremove =>
        obtain ⟨hrecords, hroom'⟩ := htake removed hremove
        exact hrecords.moveIntoTabs hroom' hop
    | edge plan =>
      simp only at hop
      split at hop
      · cases hop
      · next removed hremove =>
        have hrecords := ((htake removed hremove).1.insertTabs [item] (some item)).frame
          (applyEdgeDockPlan_keepsStacks _ target plan removed.nodes.next)
        split at hop
        · cases hop
        · next docked happly =>
          cases hop
          apply frame _ (simplifySpacesAfterMove_keepsStacks _ source target)
          rw [show docked = _ from (congrArg Prod.snd happly).symm]
          exact hrecords
    | emptySpace =>
      simp only at hop
      obtain ⟨_, hop⟩ := of_guard hop
      rw [moveItemToEmptySpace, hfind] at hop
      simp only at hop
      split at hop
      · cases hop
      · next removed hremove =>
        have hrecords := ((htake removed hremove).1.insertTabs [item] (some item)).frame
          (setRootForEmptySpace_keepsStacks _ target removed.nodes.next)
        cases hop
        exact (hrecords.frame (simplifySpaceStructure_keepsStacks _ source)).frame
          (simplifySpaceStructure_keepsStacks _ target)

theorem checkedSelectTab (hsound : self.Sound) (hroom : self.StampsHaveRoom)
    (hvalidate : self.validateOp (.selectTab tabs item) = .ok ())
    (hop : self.selectTab tabs item = (changed, next)) :
    next.Sound ∧ next.Records ((tabs, item) :: log) := by
  simp only [validateOp, Checked.bind_eq_ok, requireTabsNode] at hvalidate
  obtain ⟨items, hitems, hcontains⟩ := hvalidate
  split at hitems
  · next own selected hget =>
    cases hitems
    split at hcontains
    · cases hcontains
    · next hitem =>
      have hmem : item ∈ items := by simpa using hitem
      obtain ⟨forest, hholds, hdistinct⟩ := hsound
      obtain ⟨last, hstep, hlast⟩ := selectTab_step hholds hget hmem hop
      exact ⟨⟨last, hlast, hdistinct.of_leaves_eq (hstep.leaves_of_selectTab hholds.proper)⟩,
        h.selectTab hroom hget hmem hop⟩
  · cases hitems
  · cases hitems

/-- A checked operation on single tabs keeps the graph sound and its stamps true to the log. -/
theorem applyOpChecked (hsound : self.Sound) (hroom : self.StampsHaveRoom)
    {op : DockOp} (htab : op.isTabOp = true) (hop : self.applyOpChecked op = .ok (changed, after)) :
    after.Sound ∧ after.Records ((op.recordedUse changed).toList ++ log) := by
  obtain ⟨hvalidate, hcase⟩ := applyOpChecked_ok hop
  rcases hcase with ⟨tabs, item, rfl, hselect⟩ | ⟨rfl, rfl, hkeeps⟩ | ⟨rfl, -, hcommits⟩
  · exact h.checkedSelectTab hsound hroom hvalidate hselect
  · -- of the operations on single tabs only a move may report no change
    cases op with
    | moveItem source item target dropTarget =>
      cases dropTarget <;> exact ⟨hsound, h⟩
    | selectTab tabs item | closeItem space item | openItem space targetTabs item insertIndex =>
      exact absurd hkeeps (by simp [keepsPlace, allowsNoop])
    | _ => cases htab
  · refine ⟨sound_of_validate hcommits.valid, ?_⟩
    obtain ⟨next, happly, rfl⟩ := hcommits.applied
    apply finalize
    cases op with
    | selectTab tabs item => exact (h.checkedSelectTab hsound hroom hvalidate happly).2
    | closeItem space item => exact h.closeItem hsound happly
    | openItem space targetTabs item insertIndex => exact h.openItem hroom happly
    | moveItem source item target dropTarget => exact h.moveItem hsound hroom happly
    | _ => cases htab

end Records

/-- A run of operations on single tabs, with the uses recorded so far, the latest first. -/
inductive TabRun (start : DockGraph) : List TabUse → DockGraph → Prop where
  | start : TabRun start start.selectionLog start
  | step {log : List TabUse} {graph next : DockGraph} {op : DockOp} {changed : Bool} :
      TabRun start log graph → graph.StampsHaveRoom → op.isTabOp = true →
      graph.applyOpChecked op = .ok (changed, next) →
      TabRun start ((op.recordedUse changed).toList ++ log) next

theorem TabRun.records {start graph : DockGraph} (hvalid : start.validate = .ok ())
    (hfits : start.HistoryFits) (hrun : TabRun start log graph) :
    graph.Sound ∧ graph.Records log := by
  induction hrun with
  | start => exact ⟨sound_of_validate hvalid, hfits.records⟩
  | step _ hroom htab hop ih => exact ih.2.applyOpChecked ih.1 hroom htab hop

/-- The fold over the candidates keeps the one with the greatest stamp. -/
theorem foldl_laterSelection {candidates : List (DockItemId × Nat)}
    {best : Option (DockItemId × Nat)} (chosen : DockItemId × Nat)
    (hchosen : chosen ∈ best.toList ++ candidates)
    (hlatest : ∀ other ∈ best.toList ++ candidates, other ≠ chosen → other.2 < chosen.2) :
    candidates.foldl laterSelection best = some chosen := by
  induction candidates generalizing best with
  | nil =>
    rw [append_nil, mem_toList] at hchosen
    exact hchosen
  | cons candidate rest ih =>
    have hnext : ∀ other, other ∈ (laterSelection best candidate).toList ++ rest →
        other ∈ best.toList ++ candidate :: rest := by
      intro other hother
      rw [mem_append, mem_toList] at hother
      rw [mem_append, mem_cons, mem_toList]
      rcases hother with hother | hother
      · rw [laterSelection.eq_def] at hother
        split at hother
        · exact .inr (.inl (some.inj hother).symm)
        · split at hother
          · exact .inr (.inl (some.inj hother).symm)
          · exact .inl hother
      · exact .inr (.inr hother)
    apply ih
    · by_cases hrest : chosen ∈ rest
      · exact mem_append_right _ hrest
      · apply mem_append_left
        rw [mem_toList]
        have hcandidate := hlatest candidate (by simp)
        rw [mem_append, mem_cons, mem_toList] at hchosen
        rcases hchosen with rfl | rfl | hin
        · simp only [laterSelection]
          split
          · next hle =>
            by_cases heq : candidate = chosen
            · rw [heq]
            · exact absurd (hcandidate heq) (not_lt.mpr hle)
          · rfl
        · cases best with
          | none => rfl
          | some current =>
            have hcurrent := hlatest current (by simp)
            simp only [laterSelection]
            split
            · rfl
            · next hnot =>
              by_cases heq : current = chosen
              · rw [heq]
              · exact absurd (le_of_lt (hcurrent heq)) hnot
        · exact absurd hin hrest
    · exact fun other hother => hlatest other (hnext other hother)

/-- The preferred tab is the latest used one of those that stay. -/
theorem Records.preferredTabAfterClose (h : self.Records log)
    (hget : self.nodes.get tabs = some (.tabs items selected)) (item : DockItemId) :
    self.preferredTabAfterClose tabs item items =
      (recentItems log tabs items).find? (· != item) := by
  have hstamped := h.stamped tabs items selected hget
  have hmem : ∀ other ∈ recentItems log tabs items, other ∈ items := by
    intro other hother
    rw [recentItems, mem_filter] at hother
    simpa using hother.2
  rw [DockGraph.preferredTabAfterClose]
  cases hstate : self.tabSelectionHistory[tabs]? with
  | none =>
    cases hfind : (recentItems log tabs items).find? (· != item) with
    | none => rfl
    | some key =>
      obtain ⟨stamp, hstamp, -⟩ := hstamped.find?_latest hfind
      simp [selectionState, hstate, DockTabSelectionState.default] at hstamp
  | some state =>
    rw [selectionState, hstate] at hstamped
    simp only [bind_eq_bind, bind_some]
    cases hfind : (recentItems log tabs items).find? (· != item) with
    | none =>
      have hnone : (state.selectedStampsByItem.toList.filter
          fun entry => entry.1 != item && items.contains entry.1) = [] := by
        rw [filter_eq_nil_iff]
        rintro ⟨other, stamp⟩ hentry hcandidate
        rw [mem_toList_iff_get] at hentry
        have hnot := hstamped.find?_none hfind hentry
        simp [hnot] at hcandidate
      rw [hnone]
      rfl
    | some key =>
      obtain ⟨stamp, hstamp, hkey, hlatest⟩ := hstamped.find?_latest hfind
      rw [foldl_laterSelection (key, stamp)]
      · rfl
      · simp only [toList_none, nil_append, mem_filter, Bool.and_eq_true, mem_toList_iff_get]
        exact ⟨hstamp, hkey, by simpa using hmem key (mem_of_find?_eq_some hfind)⟩
      · rintro ⟨other, stamp'⟩ hother hne
        simp only [toList_none, nil_append, mem_filter, Bool.and_eq_true,
          mem_toList_iff_get] at hother
        apply hlatest other stamp' hother.1 hother.2.1
        rintro rfl
        exact hne (by rw [some.inj (hother.1.symm.trans hstamp)])

/-- The latest use of an item that stays, as the log has it. -/
theorem find?_recentItems (hnodup : items.Nodup) (item : DockItemId) :
    (recentItems log tabs items).find? (· != item) =
      (log.find? fun entry => entry.1 == tabs && (items.erase item).contains entry.2).map
        Prod.snd := by
  rw [recentItems, find?_filter, Recency.find?_ofLog, find?_usesIn]
  congr 2
  funext entry
  congr 1
  simp [List.Nodup.mem_erase_iff hnodup, and_comm]

theorem selectPreferred_get (hget : self.nodes.get tabs = some (.tabs items selected))
    {preferred : Option DockItemId} (hmem : ∀ item, preferred = some item → item ∈ items) :
    (self.selectPreferred tabs preferred).nodes.get tabs =
      some (.tabs items (preferred.or selected)) := by
  rw [DockGraph.selectPreferred.eq_def, hget]
  cases preferred with
  | none => exact hget
  | some item =>
    have hcontains : items.contains item = true := by simpa using hmem item rfl
    simp only [hcontains, if_true]
    exact SlotMap.get_set_self _ hget

/-- What a close leaves of a stack that keeps other tabs. -/
theorem Records.closeItem_get (h : self.Records log) {forest : DockForest}
    (hholds : self.Holds forest) (hdistinct : forest.ItemsDistinct)
    (hop : self.closeItem space item = (true, next)) :
    ∃ tabs index items selected, self.findItemInSpace space item = some (tabs, index) ∧
      self.nodes.get tabs = some (.tabs items selected) ∧
      (items.erase item ≠ [] → ∃ last, next.Holds last ∧ last.HasLeaf (tabs, items.erase item) ∧
        next.nodes.get tabs = some (.tabs (items.erase item) (if selected = some item then
            ((log.find? fun entry => entry.1 == tabs && (items.erase item).contains entry.2).map
              Prod.snd).or (items.erase item).head?
          else selected))) := by
  rw [DockGraph.closeItem] at hop
  split at hop
  · cases hop
  · next tabs index hfind =>
    obtain ⟨items, selected, hsub, hitem, hindex⟩ := hholds.findItemInSpace_eq_some hfind
    have hget := hholds.get_tabs hsub
    have hleaf : forest.HasLeaf (tabs, items) := hasLeaf_iff.mpr ⟨space, selected, hsub⟩
    have hnodup : items.Nodup := hdistinct.leaf_nodup hleaf
    obtain ⟨front, back, hsplit, hlength, herased, hremoved, hfront, hback⟩ :=
      split_at_findIdx hnodup hindex
    refine ⟨tabs, index, items, selected, hfind, hget, fun hleft => ?_⟩
    have hkept : items.eraseIdx index = items.erase item := herased.trans hremoved.symm
    have hempty : (items.erase item).isEmpty = false := by simpa using hleft
    -- the stack falls back to its first tab when the selected one leaves
    have hremove : self.removeItemFromTabs tabs index =
        (true, (self.setNode tabs (.tabs (items.erase item)
          (if selected = some item then (items.erase item).head?
            else selected))).forgetTabSelection tabs item) := by
      simp only [removeItemFromTabs, hget, hitem, hkept, hempty, Bool.false_eq_true, if_false]
    have hpreferred : self.preferredAfterClose tabs item =
        if selected = some item then
          (log.find? fun entry => entry.1 == tabs && (items.erase item).contains entry.2).map
            Prod.snd
        else none := by
      simp only [preferredAfterClose, hget]
      split
      · rw [h.preferredTabAfterClose hget, find?_recentItems hnodup]
      · rfl
    have hmem : ∀ other, self.preferredAfterClose tabs item = some other →
        other ∈ items.erase item := by
      intro other hother
      rw [hpreferred] at hother
      split at hother
      · obtain ⟨entry, hentry, rfl⟩ := map_eq_some_iff.mp hother
        have hin := find?_some hentry
        rw [Bool.and_eq_true, contains_iff_mem] at hin
        exact hin.2
      · cases hother
    simp only [hremove, Prod.mk.injEq, true_and] at hop
    generalize hfirst : (if selected = some item then (items.erase item).head? else selected) =
      first at hop
    have hput : ((self.setNode tabs (.tabs (items.erase item) first)).forgetTabSelection tabs
        item).Holds (forest.setTabs tabs (items.erase item) first) :=
      (hholds.setTabs hget _ _).of_eq (forgetTabSelection_eq _ _ _).1
        (forgetTabSelection_eq _ _ _).2.1 (forgetTabSelection_eq _ _ _).2.2.1
        (forgetTabSelection_eq _ _ _).2.2.2
    have hputGet : ((self.setNode tabs (.tabs (items.erase item) first)).forgetTabSelection tabs
        item).nodes.get tabs = some (.tabs (items.erase item) first) := by
      rw [(forgetTabSelection_eq _ _ _).1]
      exact SlotMap.get_set_self _ hget
    have hputSub : .tabs tabs (items.erase item) first ∈
        (forest.setTabs tabs (items.erase item) first space).subtrees := by
      apply hput.tabs_mem _ hputGet
      rw [hholds.proper.ids_setTabs hsub]
      exact SpaceTrees.mem_ids_iff.mpr ⟨_, hsub, rfl⟩
    obtain ⟨last, hlast⟩ := hput.selectPreferred hputSub (self.preferredAfterClose tabs item)
    have hlastGet := selectPreferred_get hputGet hmem
    rw [setTabs_setTabs] at hlast
    rw [← hop]
    refine ⟨_, hlast.simplifySpaceStructure space, ?_, ?_⟩
    · exact hasLeaf_simplifySpace
        ((hholds.proper.hasLeaf_setTabs hsub _ last _).mpr (.inl rfl)) hleft space
    · refine ((simplifySpaceStructure_keepsStacks _ space).tabs.tabs _ _ _).mpr ?_
      rw [hlastGet, hpreferred, ← hfirst]
      split
      · rfl
      · rfl

/-- In every run the history fits, and closing the selected tab of a stack selects the latest
used one of those that stay, or else the first of them. -/
theorem close_returns_to_latest {start graph : DockGraph} (hvalid : start.validate = .ok ())
    (hfits : start.HistoryFits) (hrun : TabRun start log graph) :
    graph.HistoryFits ∧
      ∀ (space : DockSpaceId) (item : DockItemId) (changed : Bool) (after : DockGraph),
        graph.applyOpChecked (.closeItem space item) = .ok (changed, after) →
        ∃ tabs index items selected, graph.findItemInSpace space item = some (tabs, index) ∧
          graph.nodes.get tabs = some (.tabs items selected) ∧
          (items.erase item ≠ [] → after.nodes.get tabs = some (.tabs (items.erase item)
            (if selected = some item then
              ((log.find? fun entry => entry.1 == tabs &&
                (items.erase item).contains entry.2).map Prod.snd).or (items.erase item).head?
            else selected))) := by
  obtain ⟨hsound, hrecords⟩ := hrun.records hvalid hfits
  refine ⟨hrecords.historyFits, fun space item changed after hop => ?_⟩
  obtain ⟨-, hcase⟩ := applyOpChecked_ok hop
  rcases hcase with ⟨_, _, hselect, _⟩ | ⟨-, -, hkeeps⟩ | ⟨-, -, hcommits⟩
  · cases hselect
  · exact absurd hkeeps (by simp [keepsPlace, allowsNoop])
  · obtain ⟨next, happly, rfl⟩ := hcommits.applied
    obtain ⟨forest, hholds, hdistinct⟩ := hsound
    obtain ⟨tabs, index, items, selected, hfind, hget, hleft⟩ :=
      hrecords.closeItem_get hholds hdistinct happly
    refine ⟨tabs, index, items, selected, hfind, hget, fun hne => ?_⟩
    obtain ⟨last, hlast, hleaf, hnext⟩ := hleft hne
    exact hlast.finalize_get_tabs hleaf hnext _

end DockGraph

namespace TabCloseWitness

/-- One stack of three tabs. -/
def threeTabs : DockGraph :=
  let (tabs, graph) := DockGraph.new.insertNode (.tabs ["x", "y", "z"] (some "x"))
  graph.setRoot "main" tabs

/-- The last tab was visited, then the first one again. -/
def visited : DockGraph := (((threeTabs.selectTab 0 "z").2).selectTab 0 "x").2

variable {graph : DockGraph}

theorem selects {tabs : DockNodeId} {item : DockItemId}
    (h : graph.validateOp (.selectTab tabs item) = .ok ()) :
    graph.applyOpChecked (.selectTab tabs item) = .ok (graph.selectTab tabs item) := by
  rw [DockGraph.applyOpChecked_selectTab, h]
  rfl

theorem hasRoom (h : ∀ entry ∈ graph.tabSelectionHistory.toList, entry.2.nextStamp < U64_MAX) :
    graph.StampsHaveRoom := fun _ _ hstate => h _ ((mem_toList_iff_get _ _ _).mpr hstate)

theorem visited_run : DockGraph.TabRun threeTabs [(0, "x"), (0, "z")] visited := by
  have hfirst : DockGraph.TabRun threeTabs [(0, "z")] (threeTabs.selectTab 0 "z").2 :=
    .step .start (hasRoom (by decide)) rfl (selects (by decide))
  exact .step hfirst (hasRoom (by decide)) rfl (selects (by decide))

end TabCloseWitness

open TabCloseWitness in
theorem close_returns_to_visited :
    ∃ after, visited.applyOpChecked (.closeItem "main" "x") = .ok (true, after)
      ∧ after.nodes.get 0 = some (.tabs ["y", "z"] (some "z")) := by
  have hvalid : threeTabs.validate = .ok () := by decide
  have hfits : threeTabs.HistoryFits := .of_empty rfl
  obtain ⟨after, hop⟩ : ∃ after,
      visited.applyOpChecked (.closeItem "main" "x") = .ok (true, after) :=
    DockGraph.exists_of_changes (by decide +kernel)
  obtain ⟨tabs, index, items, selected, hfind, hget, hleft⟩ :=
    (DockGraph.close_returns_to_latest hvalid hfits visited_run).2 _ _ _ _ hop
  have hplace : visited.findItemInSpace "main" "x" = some (0, 0) := by decide
  have hstack : visited.nodes.get 0 = some (.tabs ["x", "y", "z"] (some "x")) := by
    decide
  obtain ⟨rfl, rfl⟩ : tabs = 0 ∧ index = 0 := by
    rw [hplace] at hfind
    cases hfind
    exact ⟨rfl, rfl⟩
  rw [hstack] at hget
  cases hget
  exact ⟨after, hop, hleft (by decide)⟩

end OpenGpui.Docking
