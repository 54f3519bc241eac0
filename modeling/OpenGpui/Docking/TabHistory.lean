/-
The selection history of tab stacks: which stamps stand for a log of the selections and
insertions, and what each edit of a stack does to them.
-/
import OpenGpui.Docking.StackFrame
import OpenGpui.Library.Recency

namespace OpenGpui.Docking

open KeyMap Option Recency SlotMap List

/-- A recorded selection of an item in a stack, or its insertion there. -/
abbrev TabUse := DockNodeId × DockItemId

/-- The items a log mentions for a stack, the latest use first. -/
def usesIn (log : List TabUse) (tabs : DockNodeId) : List DockItemId :=
  log.filterMap fun entry => if entry.1 = tabs then some entry.2 else none

section Uses

variable {log : List TabUse} {tabs other : DockNodeId} {item : DockItemId}

theorem usesIn_cons_self (tabs : DockNodeId) (item : DockItemId) (log : List TabUse) :
    usesIn ((tabs, item) :: log) tabs = item :: usesIn log tabs := by
  simp [usesIn]

theorem usesIn_cons_ne (h : tabs ≠ other) (item : DockItemId) (log : List TabUse) :
    usesIn ((tabs, item) :: log) other = usesIn log other := by
  simp [usesIn, h]

/-- A stack the log does not know has no uses. -/
theorem usesIn_eq_nil (h : ∀ entry ∈ log, entry.1 ≠ tabs) : usesIn log tabs = [] := by
  rw [usesIn, filterMap_eq_nil_iff]
  intro entry hentry
  rw [if_neg (h entry hentry)]

theorem usesIn_append (log log' : List TabUse) (tabs : DockNodeId) :
    usesIn (log ++ log') tabs = usesIn log tabs ++ usesIn log' tabs :=
  filterMap_append

theorem usesIn_map_self (tabs : DockNodeId) (items : List DockItemId) :
    usesIn (items.map (Prod.mk tabs)) tabs = items := by
  induction items with
  | nil => rfl
  | cons item rest ih => rw [map_cons, usesIn_cons_self, ih]

/-- The latest use that a predicate on stacks and items allows. -/
theorem find?_usesIn (p : DockItemId → Bool) (log : List TabUse) (tabs : DockNodeId) :
    (usesIn log tabs).find? p =
      (log.find? fun entry => entry.1 == tabs && p entry.2).map Prod.snd := by
  induction log with
  | nil => rfl
  | cons entry log ih =>
    obtain ⟨other, item⟩ := entry
    by_cases heq : other = tabs
    · subst heq
      rw [usesIn_cons_self, find?_cons, find?_cons, ih]
      cases hitem : p item <;> simp
    · have hother : (other == tabs) = false := by simpa using heq
      rw [usesIn_cons_ne heq, ih, find?_cons]
      simp only [hother, Bool.false_and]

end Uses

/-- The log that recorded stamps stand for, stack by stack. -/
def recordedUses (history : List (DockNodeId × DockTabSelectionState)) : List TabUse :=
  history.flatMap fun entry =>
    (byStamp entry.2.selectedStampsByItem).map (Prod.mk entry.1)

variable {history : List (DockNodeId × DockTabSelectionState)}

theorem usesIn_recordedUses_of_not_mem {tabs : DockNodeId} (h : tabs ∉ history.map Prod.fst) :
    usesIn (recordedUses history) tabs = [] := by
  apply usesIn_eq_nil
  rintro ⟨other, item⟩ hentry rfl
  obtain ⟨entry, hin, hmap⟩ := mem_flatMap.mp hentry
  obtain ⟨_, -, heq⟩ := mem_map.mp hmap
  exact h (mem_map.mpr ⟨entry, hin, congrArg Prod.fst heq⟩)

theorem usesIn_recordedUses
    (hnodup : (history.map Prod.fst).Nodup) {tabs : DockNodeId} {state : DockTabSelectionState}
    (hmem : (tabs, state) ∈ history) :
    usesIn (recordedUses history) tabs = byStamp state.selectedStampsByItem := by
  obtain ⟨front, back, rfl⟩ := append_of_mem hmem
  rw [map_append, map_cons, nodup_append, nodup_cons] at hnodup
  obtain ⟨-, ⟨hback, -⟩, hapart⟩ := hnodup
  have hfront : tabs ∉ front.map Prod.fst := fun hin =>
    hapart tabs hin tabs mem_cons_self rfl
  have hsplit : recordedUses (front ++ (tabs, state) :: back) = recordedUses front ++
      ((byStamp state.selectedStampsByItem).map (Prod.mk tabs) ++ recordedUses back) := by
    simp [recordedUses]
  rw [hsplit, usesIn_append, usesIn_append, usesIn_recordedUses_of_not_mem hfront,
    usesIn_recordedUses_of_not_mem hback, usesIn_map_self, nil_append, append_nil]

namespace DockGraph

variable {self after : DockGraph} {log : List TabUse} {tabs : DockNodeId} {item : DockItemId}
  {items : List DockItemId} {selected : Option DockItemId}

variable (graph : DockGraph)

def selectionState (tabs : DockNodeId) : DockTabSelectionState :=
  (graph.tabSelectionHistory[tabs]?).getD .default

/-- The items of a stack that a log mentions, the latest use first. -/
def recentItems (log : List TabUse) (tabs : DockNodeId) (items : List DockItemId) :
    List DockItemId :=
  (ofLog (usesIn log tabs)).filter items.contains

/-- The stamps of every stack stand for the log, as far as it is about items of the stack. -/
structure Records (graph : DockGraph) (log : List TabUse) : Prop where
  stacked : ∀ (tabs : DockNodeId) (state : DockTabSelectionState),
    graph.tabSelectionHistory[tabs]? = some state →
      ∃ items selected, graph.nodes.get tabs = some (.tabs items selected)
  stamped : ∀ (tabs : DockNodeId) (items : List DockItemId) (selected : Option DockItemId),
    graph.nodes.get tabs = some (.tabs items selected) →
      Recency.Represents (graph.selectionState tabs).selectedStampsByItem
        (graph.selectionState tabs).nextStamp (recentItems log tabs items)
  known : ∀ entry ∈ log, entry.1 < graph.nodes.next

/-- The recorded history mentions items of the stack only, with distinct stamps below the
next one. -/
structure HistoryFits (graph : DockGraph) : Prop where
  items : ∀ (tabs : DockNodeId) (state : DockTabSelectionState),
    graph.tabSelectionHistory[tabs]? = some state →
      ∃ items selected, graph.nodes.get tabs = some (.tabs items selected) ∧
        ∀ (item : DockItemId) (stamp : Nat), state.selectedStampsByItem[item]? = some stamp →
          item ∈ items ∧ stamp < state.nextStamp
  distinct : ∀ (tabs : DockNodeId) (state : DockTabSelectionState) (first second : DockItemId)
    (stamp : Nat), graph.tabSelectionHistory[tabs]? = some state →
      state.selectedStampsByItem[first]? = some stamp →
      state.selectedStampsByItem[second]? = some stamp → first = second

/-- A graph built from its nodes has recorded nothing yet. -/
theorem HistoryFits.of_empty (h : self.tabSelectionHistory = ∅) : self.HistoryFits where
  items tabs state hstate := by
    rw [h] at hstate
    simp at hstate
  distinct tabs state first second stamp hstate := by
    rw [h] at hstate
    simp at hstate

/-- No stack has used up its stamps. -/
def StampsHaveRoom : Prop :=
  ∀ (tabs : DockNodeId) (state : DockTabSelectionState),
    graph.tabSelectionHistory[tabs]? = some state → state.nextStamp < U64_MAX

theorem StampsHaveRoom.nextStamp (h : self.StampsHaveRoom) (tabs : DockNodeId) :
    saturatingAddU64 (self.selectionState tabs).nextStamp 1 =
      (self.selectionState tabs).nextStamp + 1 := by
  have hroom : (self.selectionState tabs).nextStamp < U64_MAX := by
    rw [selectionState]
    cases hstate : self.tabSelectionHistory[tabs]? with
    | none => exact (by decide : 0 < U64_MAX)
    | some state => exact h tabs state hstate
  rw [saturatingAddU64]
  omega

/-- The log a graph starts with. -/
def selectionLog : List TabUse := recordedUses graph.tabSelectionHistory.toList

theorem usesIn_selectionLog (tabs : DockNodeId) :
    usesIn graph.selectionLog tabs = byStamp (graph.selectionState tabs).selectedStampsByItem := by
  have hkeys : (graph.tabSelectionHistory.toList.map Prod.fst).Nodup := by
    rw [Std.ExtTreeMap.map_fst_toList_eq_keys]
    exact keys_nodup _
  rw [selectionLog, selectionState]
  cases hstate : graph.tabSelectionHistory[tabs]? with
  | none =>
    rw [usesIn_recordedUses_of_not_mem]
    · exact byStamp_empty.symm
    · rw [Std.ExtTreeMap.map_fst_toList_eq_keys, mem_keys_iff_get, hstate]
      simp
  | some state =>
    exact usesIn_recordedUses hkeys ((mem_toList_iff_get _ _ _).mpr hstate)

/-- A history that fits is the record of its own log. -/
theorem HistoryFits.records (h : self.HistoryFits) : self.Records self.selectionLog where
  stacked tabs state hstate := by
    obtain ⟨items, selected, hget, -⟩ := h.items tabs state hstate
    exact ⟨items, selected, hget⟩
  stamped tabs items selected hget := by
    have hrecent : recentItems self.selectionLog tabs items =
        byStamp (self.selectionState tabs).selectedStampsByItem := by
      rw [recentItems, usesIn_selectionLog, ofLog_of_nodup nodup_byStamp, filter_eq_self]
      intro item hitem
      obtain ⟨stamp, hstamp⟩ := mem_byStamp_iff.mp hitem
      rw [selectionState] at hstamp
      cases hstate : self.tabSelectionHistory[tabs]? with
      | none => simp [hstate, DockTabSelectionState.default] at hstamp
      | some state =>
        rw [hstate] at hstamp
        obtain ⟨own, ownSelected, hown, hfits⟩ := h.items tabs state hstate
        rw [hget] at hown
        cases hown
        simpa using (hfits item stamp hstamp).1
    rw [hrecent]
    rw [selectionState]
    cases hstate : self.tabSelectionHistory[tabs]? with
    | none =>
      apply represents_byStamp
      · intro first second stamp hfirst
        simp [DockTabSelectionState.default] at hfirst
      · intro item stamp hstamp
        simp [DockTabSelectionState.default] at hstamp
    | some state =>
      obtain ⟨own, ownSelected, -, hfits⟩ := h.items tabs state hstate
      exact represents_byStamp
        (fun first second stamp => h.distinct tabs state first second stamp hstate)
        fun item stamp hstamp => (hfits item stamp hstamp).2
  known entry hentry := by
    obtain ⟨⟨tabs, state⟩, hin, hmap⟩ := mem_flatMap.mp hentry
    obtain ⟨item, -, rfl⟩ := mem_map.mp hmap
    have hstate := (mem_toList_iff_get _ _ _).mp hin
    obtain ⟨items, selected, hget, -⟩ := h.items tabs state hstate
    exact get_lt_next hget

namespace Records

theorem historyFits (h : self.Records log) : self.HistoryFits where
  items tabs state hstate := by
    obtain ⟨items, selected, hget⟩ := h.stacked tabs state hstate
    have hstamped := h.stamped tabs items selected hget
    rw [selectionState, hstate] at hstamped
    refine ⟨items, selected, hget, fun item stamp hstamp => ⟨?_, hstamped.below item stamp hstamp⟩⟩
    have hin := (hstamped.mem_iff item).mpr ⟨stamp, hstamp⟩
    rw [recentItems, mem_filter] at hin
    simpa using hin.2
  distinct tabs state first second stamp hstate hfirst hsecond := by
    obtain ⟨items, selected, hget⟩ := h.stacked tabs state hstate
    have hstamped := h.stamped tabs items selected hget
    rw [selectionState, hstate] at hstamped
    exact hstamped.injective hfirst hsecond

/-- An edit that leaves the stacks and their history alone. -/
theorem frame (h : self.Records log) (hkeeps : self.KeepsStacks after) : after.Records log where
  stacked tabs state hstate := by
    rw [hkeeps.history] at hstate
    obtain ⟨items, selected, hget⟩ := h.stacked tabs state hstate
    exact ⟨items, selected, (hkeeps.tabs.tabs _ _ _).mpr hget⟩
  stamped tabs items selected hget := by
    rw [selectionState, hkeeps.history]
    exact h.stamped tabs items selected ((hkeeps.tabs.tabs _ _ _).mp hget)
  known entry hentry := Nat.lt_of_lt_of_le (h.known entry hentry) hkeeps.tabs.next

/-- A stack that is overwritten with an item in it and records the item. -/
theorem put (h : self.Records log) (hroom : self.StampsHaveRoom)
    (hget : self.nodes.get tabs = some (.tabs items selected)) {merged : List DockItemId}
    (hmem : item ∈ merged) (hothers : ∀ other, other ≠ item → (other ∈ merged ↔ other ∈ items))
    (nextSelected : Option DockItemId) :
    ((self.setNode tabs (.tabs merged nextSelected)).recordTabSelection tabs item).Records
      ((tabs, item) :: log) where
  stacked other state hstate := by
    simp only [recordTabSelection_nodes, setNode_nodes]
    by_cases heq : tabs = other
    · subst heq
      exact ⟨merged, nextSelected, get_set_self _ hget⟩
    · rw [get_set_ne _ _ heq]
      apply h.stacked other state
      rwa [recordTabSelection, KeyMap.get_insert, if_neg heq] at hstate
  stamped other ownItems ownSelected hown := by
    simp only [recordTabSelection_nodes, setNode_nodes] at hown
    by_cases heq : tabs = other
    · subst heq
      rw [get_set_self _ hget] at hown
      cases hown
      have hstate : ((self.setNode tabs (.tabs merged nextSelected)).recordTabSelection tabs
          item).selectionState tabs = ⟨(self.selectionState tabs).nextStamp + 1,
          (self.selectionState tabs).selectedStampsByItem.insert item (self.selectionState
          tabs).nextStamp⟩ := by
        rw [← hroom.nextStamp, selectionState, recordTabSelection, KeyMap.get_insert, if_pos rfl]
        rfl
      have hrecent : recentItems ((tabs, item) :: log) tabs merged =
          touch item (recentItems log tabs items) := by
        rw [recentItems, usesIn_cons_self]
        apply filter_touch _ (by simpa using hmem) _ (nodup_ofLog _)
        intro other hne
        simpa using hothers other hne
      rw [hstate, hrecent]
      exact (h.stamped tabs items selected hget).touch item
    · rw [get_set_ne _ _ heq] at hown
      have hstamped := h.stamped other ownItems ownSelected hown
      rw [recentItems, usesIn_cons_ne heq, selectionState, recordTabSelection, KeyMap.get_insert,
        if_neg heq]
      exact hstamped
  known entry hentry := by
    rcases mem_cons.mp hentry with rfl | hold
    · exact (get_lt_next hget : tabs < self.nodes.next)
    · exact h.known entry hold

/-- Forgetting an item erases its stamp. -/
theorem stamps_forgetTabSelection (tabs : DockNodeId) (item : DockItemId) :
    (((graph.forgetTabSelection tabs item).selectionState tabs).nextStamp =
        (graph.selectionState tabs).nextStamp
      ∧ ((graph.forgetTabSelection tabs item).selectionState tabs).selectedStampsByItem =
        (graph.selectionState tabs).selectedStampsByItem.erase item)
    ∨ ((graph.forgetTabSelection tabs item).selectionState tabs = .default ∧ ∀ other : DockItemId,
        ((graph.selectionState tabs).selectedStampsByItem.erase item)[other]? = none) := by
  rw [selectionState, selectionState, forgetTabSelection]
  cases hstate : graph.tabSelectionHistory[tabs]? with
  | none =>
    refine .inr ⟨by simp only [hstate, getD_none], fun other => ?_⟩
    simp [DockTabSelectionState.default]
  | some state =>
    simp only [getD_some]
    split
    · next hempty =>
      refine .inr ⟨by simp, fun other => ?_⟩
      rw [Std.ExtTreeMap.isEmpty_iff] at hempty
      rw [hempty]
      rfl
    · exact .inl ⟨by simp, by simp⟩

theorem history_forgetTabSelection_ne {tabs other : DockNodeId}
    (hne : tabs ≠ other) (item : DockItemId) :
    (graph.forgetTabSelection tabs item).tabSelectionHistory[other]? =
      graph.tabSelectionHistory[other]? := by
  rw [forgetTabSelection]
  split
  · rfl
  · dsimp only
    split
    · rw [KeyMap.get_erase, if_neg hne]
    · rw [KeyMap.get_insert, if_neg hne]

variable (h : self.Records log)

include h

section

variable (hget : self.nodes.get tabs = some (.tabs items selected))

include hget

/-- A stack that is overwritten without one of its items and forgets the item. -/
theorem take {kept : List DockItemId} (hgone : item ∉ kept)
    (hothers : ∀ other, other ≠ item → (other ∈ kept ↔ other ∈ items))
    (nextSelected : Option DockItemId) :
    ((self.setNode tabs (.tabs kept nextSelected)).forgetTabSelection tabs item).Records log where
  stacked other state hstate := by
    rw [(forgetTabSelection_eq _ _ _).1, setNode_nodes]
    by_cases heq : tabs = other
    · subst heq
      exact ⟨kept, nextSelected, get_set_self _ hget⟩
    · rw [get_set_ne _ _ heq]
      apply h.stacked other state
      rwa [history_forgetTabSelection_ne _ heq] at hstate
  stamped other ownItems ownSelected hown := by
    rw [(forgetTabSelection_eq _ _ _).1, setNode_nodes] at hown
    by_cases heq : tabs = other
    · subst heq
      rw [get_set_self _ hget] at hown
      cases hown
      have hrecent : recentItems log tabs kept =
          forget item (recentItems log tabs items) := by
        apply filter_forget _ (by simpa using hgone) _ (nodup_ofLog _)
        intro other hne
        simpa using hothers other hne
      have hforget := (h.stamped tabs items selected hget).forget item
      rw [hrecent]
      rcases stamps_forgetTabSelection (self.setNode tabs (.tabs kept nextSelected)) tabs item with
        ⟨hnext, hstamps⟩ | ⟨hdefault, hempty⟩
      · rw [hnext, hstamps]
        exact hforget
      · rw [hdefault]
        exact hforget.renew hempty 0
    · rw [get_set_ne _ _ heq] at hown
      rw [selectionState, history_forgetTabSelection_ne _ heq]
      exact h.stamped other ownItems ownSelected hown
  known entry hentry := by
    rw [(forgetTabSelection_eq _ _ _).1]
    exact h.known entry hentry

/-- Another selection among the same items. -/
theorem reselect (nextSelected : Option DockItemId) :
    (self.setNode tabs (.tabs items nextSelected)).Records log where
  stacked other state hstate := by
    obtain ⟨ownItems, ownSelected, hown⟩ := h.stacked other state hstate
    rw [setNode_nodes]
    by_cases heq : tabs = other
    · subst heq
      exact ⟨items, nextSelected, get_set_self _ hget⟩
    · exact ⟨ownItems, ownSelected, by rw [get_set_ne _ _ heq, hown]⟩
  stamped other ownItems ownSelected hown := by
    rw [setNode_nodes] at hown
    by_cases heq : tabs = other
    · subst heq
      rw [get_set_self _ hget] at hown
      cases hown
      exact h.stamped tabs items selected hget
    · rw [get_set_ne _ _ heq] at hown
      exact h.stamped other ownItems ownSelected hown
  known entry hentry := h.known entry hentry

end

/-- A new stack has no history yet. -/
theorem insertTabs (items : List DockItemId) (selected : Option DockItemId) :
    (self.insertNode (.tabs items selected)).2.Records log where
  stacked other state hstate := by
    obtain ⟨ownItems, ownSelected, hown⟩ := h.stacked other state hstate
    exact ⟨ownItems, ownSelected, get_insert_of_stored _ hown⟩
  stamped other ownItems ownSelected hown := by
    have hown' := hown
    rw [insertNode, SlotMap.get_insert] at hown'
    split at hown'
    · next heq =>
      subst heq
      have hnone : self.tabSelectionHistory[self.nodes.next]? = none := by
        cases hstate : self.tabSelectionHistory[self.nodes.next]? with
        | none => rfl
        | some state =>
          obtain ⟨_, _, hget⟩ := h.stacked _ _ hstate
          rw [get_next] at hget
          cases hget
      have huses : usesIn log self.nodes.next = [] :=
        usesIn_eq_nil fun entry hentry => Nat.ne_of_lt (h.known entry hentry)
      have hstate : (self.insertNode (.tabs items selected)).2.selectionState self.nodes.next =
          .default := by
        rw [selectionState, insertNode]
        rw [hnone, getD_none]
      rw [recentItems, huses, hstate]
      exact Recency.Represents.empty 0
    · exact h.stamped other ownItems ownSelected hown'
  known entry hentry := Nat.lt_succ_of_lt (h.known entry hentry)

/-- The sweep forgets what it removes. -/
theorem finalize (retention : List DockNodeId) :
    (self.finalizeCheckedMutation retention).Records log where
  stacked tabs state hstate := by
    rw [finalizeCheckedMutation, pruneNodesNotIn] at hstate ⊢
    rw [KeyMap.get_filter, filter_eq_some_iff] at hstate
    obtain ⟨items, selected, hget⟩ := h.stacked tabs state hstate.1
    obtain ⟨node, hnode⟩ := (SlotMap.contains_iff _ _).mp hstate.2
    refine ⟨items, selected, ?_⟩
    rw [get_retain] at hnode ⊢
    split at hnode
    · next hkept => rw [if_pos hkept, hget]
    · cases hnode
  stamped tabs items selected hget := by
    have hcontains := (SlotMap.contains_iff _ _).mpr ⟨_, hget⟩
    have hstamped := h.stamped tabs items selected (finalizeCheckedMutation_get hget)
    have hstate : (self.finalizeCheckedMutation retention).selectionState tabs =
        self.selectionState tabs := by
      rw [finalizeCheckedMutation, pruneNodesNotIn] at hcontains ⊢
      rw [selectionState, selectionState]
      rw [KeyMap.get_filter]
      cases self.tabSelectionHistory[tabs]? with
      | none => rfl
      | some state => simp [Option.filter, hcontains]
    rw [hstate]
    exact hstamped
  known entry hentry := h.known entry hentry

end Records

end DockGraph

end OpenGpui.Docking
