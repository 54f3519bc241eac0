/-
Validation reads a graph as a forest: it succeeds exactly on the graphs that hold a
forest of well-formed trees with distinct items.
-/
import OpenGpui.Docking.Validation
import OpenGpui.Docking.ForestSimplify
import OpenGpui.Library.Checked

namespace OpenGpui.Docking

open List Checked KeyMap Option DockGraph

open DockTree

/-- A node whose own data passes validation. -/
def DockNode.WellFormed : DockNode → Prop
  | .split _ children fractions =>
    2 ≤ children.length ∧ children.length = fractions.length ∧
      ∀ fraction ∈ fractions, fractionIsInvalid fraction = false
  | .tabs items selected => items ≠ [] ∧ ∃ item ∈ items, selected = some item
  | .floating _ => True

/-- Every node of the tree is well formed. -/
def DockTree.WellFormed (tree : DockTree) : Prop := ∀ sub ∈ tree.subtrees, sub.node.WellFormed

theorem DockTree.WellFormed.child {tree child : DockTree} (h : tree.WellFormed)
    (hchild : child ∈ tree.children) : child.WellFormed :=
  fun sub hsub => h sub (mem_subtrees_of_child hchild hsub)

theorem DockTree.WellFormed.of_children {tree : DockTree} (hnode : tree.node.WellFormed)
    (hchildren : ∀ child ∈ tree.children, child.WellFormed) : tree.WellFormed := by
  intro sub hsub
  rw [subtrees_eq] at hsub
  rcases mem_cons.mp hsub with rfl | hbelow
  · exact hnode
  · obtain ⟨child, hchild, hmem⟩ := mem_flatMap.mp hbelow
    exact hchildren child hchild sub hmem

namespace DockGraphValidator

/-- Between the two states the validator met these nodes and items for the first time,
and nothing else. -/
structure Claims (before after : DockGraphValidator) (keys : List DockNodeId)
    (items : List DockItemId) : Prop where
  keysNodup : keys.Nodup
  keysNew : ∀ key ∈ keys, before.marks[key]? = none
  marks : ∀ key, after.marks[key]? = none ↔ key ∉ keys ∧ before.marks[key]? = none
  itemsNodup : items.Nodup
  itemsNew : ∀ item ∈ items, before.items[item]? = none
  held : ∀ item, after.items[item]? = none ↔ item ∉ items ∧ before.items[item]? = none

namespace Claims

variable {before middle after : DockGraphValidator} {keys keys' : List DockNodeId}
  {items items' : List DockItemId}

theorem refl (state : DockGraphValidator) : Claims state state [] [] := by
  constructor <;> simp

theorem trans (h : Claims before middle keys items) (h' : Claims middle after keys' items') :
    Claims before after (keys ++ keys') (items ++ items') where
  keysNodup := by
    rw [nodup_append]
    refine ⟨h.keysNodup, h'.keysNodup, ?_⟩
    rintro key hkey other hother rfl
    exact ((h.marks key).mp (h'.keysNew key hother)).1 hkey
  keysNew key hkey := by
    rcases mem_append.mp hkey with hfirst | hsecond
    · exact h.keysNew key hfirst
    · exact ((h.marks key).mp (h'.keysNew key hsecond)).2
  marks key := by
    rw [h'.marks, h.marks, mem_append]
    tauto
  itemsNodup := by
    rw [nodup_append]
    refine ⟨h.itemsNodup, h'.itemsNodup, ?_⟩
    rintro item hitem other hother rfl
    exact ((h.held item).mp (h'.itemsNew item hother)).1 hitem
  itemsNew item hitem := by
    rcases mem_append.mp hitem with hfirst | hsecond
    · exact h.itemsNew item hfirst
    · exact ((h.held item).mp (h'.itemsNew item hsecond)).2
  held item := by
    rw [h'.held, h.held, mem_append]
    tauto

variable {key : DockNodeId}

theorem mark (state : DockGraphValidator) (hkey : state.marks[key]? = none)
    (value : GraphValidationMark) :
    Claims state { state with marks := state.marks.insert key value } [key] [] where
  keysNodup := by simp
  keysNew other hother := by
    rw [mem_singleton.mp hother]
    exact hkey
  marks other := by
    by_cases hother : key = other
    · simp [hother]
    · simp [hother, Ne.symm hother]
  itemsNodup := nodup_nil
  itemsNew := by simp
  held := by simp

theorem remark (state : DockGraphValidator) (hkey : state.marks[key]? ≠ none)
    (value : GraphValidationMark) :
    Claims state { state with marks := state.marks.insert key value } [] [] where
  keysNodup := nodup_nil
  keysNew := by simp
  marks other := by
    by_cases hother : key = other
    · subst hother
      simp [hkey]
    · simp [hother]
  itemsNodup := nodup_nil
  itemsNew := by simp
  held := by simp

theorem item (state : DockGraphValidator) {item : DockItemId} (hitem : state.items[item]? = none)
    (tabs : DockNodeId) :
    Claims state { state with items := state.items.insert item tabs } [] [item] where
  keysNodup := nodup_nil
  keysNew := by simp
  marks := by simp
  itemsNodup := by simp
  itemsNew other hother := by
    rw [mem_singleton.mp hother]
    exact hitem
  held other := by
    by_cases hother : item = other
    · simp [hother]
    · simp [hother, Ne.symm hother]

/-- A node and the claims of what lies below it. -/
theorem node {state below : DockGraphValidator} (hkey : state.marks[key]? = none)
    (h : Claims { state with marks := state.marks.insert key .visiting } below keys items) :
    Claims state { below with marks := below.marks.insert key .done } (key :: keys) items := by
  have hmarked : below.marks[key]? ≠ none := by
    rw [Ne, h.marks]
    simp
  simpa using ((mark state hkey .visiting).trans h).trans (remark below hmarked .done)

end Claims

section Fold

variable {α β : Type} {keys : β → List DockNodeId} {items : β → List DockItemId}
  {step : DockGraphValidator → β → Except DockGraphValidationError DockGraphValidator}

/-- A fold whose steps each claim a part claims the parts one after another. -/
theorem foldlM_claims {P : α → β → Prop}
    {step : DockGraphValidator → α → Except DockGraphValidationError DockGraphValidator}
    {entries : List α} (hstep : ∀ state, ∀ entry ∈ entries, ∀ after, step state entry = .ok after →
      ∃ out, P entry out ∧ Claims state after (keys out) (items out))
    {state after : DockGraphValidator} (h : entries.foldlM step state = .ok after) :
    ∃ outs, List.Forall₂ P entries outs ∧
      Claims state after (outs.flatMap keys) (outs.flatMap items) := by
  induction entries generalizing state with
  | nil =>
    obtain rfl : state = after := by simpa [pure_eq_ok] using h
    exact ⟨[], List.Forall₂.nil, Claims.refl state⟩
  | cons entry rest ih =>
    rw [foldlM_cons, bind_eq_ok] at h
    obtain ⟨middle, hfirst, hrest⟩ := h
    obtain ⟨out, hout, hclaims⟩ := hstep state entry mem_cons_self middle hfirst
    obtain ⟨outs, houts, hothers⟩ :=
      ih (fun state other hother => hstep state other (mem_cons_of_mem _ hother)) hrest
    exact ⟨out :: outs, List.Forall₂.cons hout houts, hclaims.trans hothers⟩

variable (keys items step) in
/-- A fold over parts that are new and share nothing succeeds. -/
theorem foldlM_complete {entries : List β} (state : DockGraphValidator)
    (hstep : ∀ state, ∀ entry ∈ entries, (∀ key ∈ keys entry, state.marks[key]? = none) →
      (∀ item ∈ items entry, state.items[item]? = none) →
      ∃ after, step state entry = .ok after ∧ Claims state after (keys entry) (items entry))
    (hkeys : (entries.flatMap keys).Nodup) (hitems : (entries.flatMap items).Nodup)
    (hkeysNew : ∀ key ∈ entries.flatMap keys, state.marks[key]? = none)
    (hitemsNew : ∀ item ∈ entries.flatMap items, state.items[item]? = none) :
    ∃ after, entries.foldlM step state = .ok after ∧
      Claims state after (entries.flatMap keys) (entries.flatMap items) := by
  induction entries generalizing state with
  | nil => exact ⟨state, rfl, Claims.refl state⟩
  | cons entry rest ih =>
    rw [flatMap_cons] at hkeys hitems hkeysNew hitemsNew
    obtain ⟨middle, hfirst, hclaims⟩ := hstep state entry mem_cons_self
      (fun key hkey => hkeysNew key (mem_append_left _ hkey))
      (fun item hitem => hitemsNew item (mem_append_left _ hitem))
    obtain ⟨_, hkeysRest, hkeysApart⟩ := nodup_append.mp hkeys
    obtain ⟨_, hitemsRest, hitemsApart⟩ := nodup_append.mp hitems
    obtain ⟨after, hrest, hothers⟩ := ih middle
      (fun state entry hentry => hstep state entry (mem_cons_of_mem _ hentry))
      hkeysRest hitemsRest
      (fun key hkey => (hclaims.marks key).mpr ⟨fun hin => hkeysApart key hin key hkey rfl,
          hkeysNew key (mem_append_right _ hkey)⟩)
      (fun item hitem => (hclaims.held item).mpr ⟨fun hin => hitemsApart item hin item hitem rfl,
          hitemsNew item (mem_append_right _ hitem)⟩)
    refine ⟨after, ?_, hclaims.trans hothers⟩
    rw [foldlM_cons, bind_eq_ok]
    exact ⟨middle, hfirst, hrest⟩

end Fold

variable {items : List DockItemId} {state : DockGraphValidator} {after : DockGraphValidator}

theorem claimItems_ok {tabs : DockNodeId} (h : claimItems tabs items state = .ok after) :
    Claims state after [] items := by
  induction items generalizing state with
  | nil =>
    cases h
    exact Claims.refl _
  | cons first rest ih =>
    rw [claimItems] at h
    split at h
    · cases h
    · next hnone => exact (Claims.item state hnone tabs).trans (ih h)

theorem claimItems_complete (tabs : DockNodeId) (hnodup : items.Nodup)
    (hnew : ∀ item ∈ items, state.items[item]? = none) :
    ∃ after, claimItems tabs items state = .ok after ∧ Claims state after [] items := by
  induction items generalizing state with
  | nil => exact ⟨state, rfl, Claims.refl state⟩
  | cons first rest ih =>
    rw [nodup_cons] at hnodup
    have hnone := hnew first mem_cons_self
    have hfirst := Claims.item state hnone tabs
    obtain ⟨after, hrest, hclaims⟩ := ih hnodup.2 fun item hitem => (hfirst.held item).mpr
      ⟨fun hin => hnodup.1 (mem_singleton.mp hin ▸ hitem), hnew item (mem_cons_of_mem _ hitem)⟩
    refine ⟨after, ?_, hfirst.trans hclaims⟩
    rw [claimItems, hnone]
    exact hrest

theorem validateTabs_ok {tabs : DockNodeId} {selected : Option DockItemId}
    (h : state.validateTabs tabs items selected = .ok after) :
    (DockNode.tabs items selected).WellFormed ∧ Claims state after [] items := by
  rw [validateTabs.eq_def] at h
  split at h
  · cases h
  · next hne =>
    split at h
    · cases h
    · next item =>
      split at h
      · cases h
      · next hcontains =>
        refine ⟨⟨by simpa using hne, item, by simpa using hcontains, rfl⟩, claimItems_ok h⟩

theorem validateTabs_complete (state : DockGraphValidator) (tabs : DockNodeId) {selected :
    Option DockItemId} (hwell : (DockNode.tabs items selected).WellFormed) (hnodup : items.Nodup)
    (hnew : ∀ item ∈ items, state.items[item]? = none) :
    ∃ after, state.validateTabs tabs items selected = .ok after ∧ Claims state after [] items := by
  obtain ⟨hne, item, hitem, rfl⟩ := hwell
  obtain ⟨after, hclaim, hclaims⟩ := claimItems_complete tabs hnodup hnew
  refine ⟨after, ?_, hclaims⟩
  rw [validateTabs, if_neg (by simpa using hne)]
  simpa [hitem] using hclaim

theorem validateSplit_ok_iff {split : DockNodeId} {axis : SplitAxis} {children : List DockNodeId}
    {fractions : List Scalar} :
    validateSplit split children fractions = .ok () ↔
      (DockNode.split axis children fractions).WellFormed := by
  rw [validateSplit, guard_eq_ok, guard_eq_ok, DockNode.WellFormed, ← not_lt, ← findIdx?_eq_none_iff]
  cases fractions.findIdx? fractionIsInvalid <;> simp

/-- A subtree that passes validation is a well-formed tree of new nodes and items. -/
theorem validateSubtree_ok {nodes : DockNodes} {fuel : Nat} {key : DockNodeId} (h :
    validateSubtree nodes fuel key state = .ok after) :
    ∃ tree : DockTree, (tree.id = key ∧ Stored nodes tree ∧ tree.WellFormed) ∧
      Claims state after tree.ids tree.items := by
  induction fuel generalizing key state after with
  | zero => cases h
  | succ fuel ih =>
    rw [validateSubtree] at h
    split at h
    · cases h
    · cases h
    · next hkey =>
      split at h
      · cases h
      · next items selected hget =>
        obtain ⟨below, hbelow, hdone⟩ := bind_eq_ok.mp h
        cases hdone
        obtain ⟨hwell, hclaims⟩ := validateTabs_ok hbelow
        refine ⟨.tabs key items selected, ⟨rfl, ?_, ?_⟩, ?_⟩
        · exact Stored.of_children hget fun low hlow => nomatch hlow
        · exact WellFormed.of_children hwell fun low hlow => nomatch hlow
        · simpa using Claims.node hkey hclaims
      · next child hget =>
        obtain ⟨below, hbelow, hdone⟩ := bind_eq_ok.mp h
        cases hdone
        obtain ⟨tree, ⟨rfl, hstored, hwell⟩, hclaims⟩ := ih hbelow
        refine ⟨.floating key tree, ⟨rfl, ?_, ?_⟩, ?_⟩
        · apply Stored.of_children hget
          intro low hlow
          obtain rfl := mem_singleton.mp hlow
          exact hstored
        · apply WellFormed.of_children
          · trivial
          · intro low hlow
            obtain rfl := mem_singleton.mp hlow
            exact hwell
        · simpa using Claims.node hkey hclaims
      · next axis children fractions hget =>
        obtain ⟨_, hsplit, hrest⟩ := bind_eq_ok.mp h
        obtain ⟨below, hbelow, hdone⟩ := bind_eq_ok.mp hrest
        cases hdone
        obtain ⟨kids, hkids, hclaims⟩ := foldlM_claims
          (fun state child _ after hchild => ih hchild) hbelow
        have hmap : kids.map DockTree.id = children := map_eq_of_forall₂ (fun hkid => hkid.1) hkids
        have hall : ∀ kid ∈ kids, Stored nodes kid ∧ kid.WellFormed := by
          intro kid hkid
          obtain ⟨child, _, hchild⟩ := exists_left_of_forall₂ hkids hkid
          exact hchild.2
        refine ⟨.split key axis kids fractions, ⟨rfl, ?_, ?_⟩, ?_⟩
        · apply Stored.of_children
          · rw [id_split, hget, ← hmap]
            rfl
          · exact fun kid hkid => (hall kid hkid).1
        · apply WellFormed.of_children
          · rw [DockTree.node, hmap]
            exact validateSplit_ok_iff.mp hsplit
          · exact fun kid hkid => (hall kid hkid).2
        · simpa using Claims.node hkey hclaims

/-- A well-formed tree of new nodes and items passes validation. -/
theorem validateSubtree_complete {nodes : DockNodes} {tree : DockTree}
    (hstored : Stored nodes tree) (hwell : tree.WellFormed) {fuel : Nat}
    (hfuel : tree.ids.length ≤ fuel) (state : DockGraphValidator) (hids : tree.ids.Nodup)
    (hitems : tree.items.Nodup) (hidsNew : ∀ key ∈ tree.ids, state.marks[key]? = none)
    (hitemsNew : ∀ item ∈ tree.items, state.items[item]? = none) :
    ∃ after, validateSubtree nodes fuel tree.id state = .ok after ∧
      Claims state after tree.ids tree.items := by
  induction tree using DockTree.induction generalizing fuel state with
  | tabs key items selected =>
    obtain ⟨rest, rfl, _⟩ := descend hfuel
    have hget : nodes.get key = some (.tabs items selected) := hstored.get
    have hkey := hidsNew key (by simp)
    rw [items_tabs] at hitems hitemsNew
    obtain ⟨below, hbelow, hclaims⟩ := validateTabs_complete
      { state with marks := state.marks.insert key .visiting } key
      (hwell _ (mem_subtrees_self _)) hitems hitemsNew
    refine ⟨_, ?_, by simpa using Claims.node hkey hclaims⟩
    simp only [id_tabs, validateSubtree, hkey, hget, hbelow]
    rfl
  | floating key child ih =>
    obtain ⟨rest, rfl, hrest⟩ := descend hfuel
    have hget : nodes.get key = some (.floating child.id) := hstored.get
    have hkey := hidsNew key (by simp)
    have hchild : child ∈ (floating key child).children := mem_singleton_self _
    rw [ids_floating, nodup_cons] at hids
    obtain ⟨below, hbelow, hclaims⟩ := ih (hstored.child hchild) (hwell.child hchild)
      (hrest child hchild) { state with marks := state.marks.insert key .visiting }
      hids.2 (by simpa using hitems)
      (fun other hother => ((Claims.mark state hkey .visiting).marks other).mpr
        ⟨fun heq => hids.1 (mem_singleton.mp heq ▸ hother), hidsNew other (by simp [hother])⟩)
      (by simpa using hitemsNew)
    refine ⟨_, ?_, by simpa using Claims.node hkey hclaims⟩
    simp only [id_floating, validateSubtree, hkey, hget, hbelow]
    rfl
  | split key axis kids fractions ih =>
    obtain ⟨rest, rfl, hrest⟩ := descend hfuel
    have hget : nodes.get key = some (.split axis (kids.map DockTree.id) fractions) := hstored.get
    have hkey := hidsNew key (by simp)
    have hsplit : validateSplit key (kids.map DockTree.id) fractions = .ok () :=
      validateSplit_ok_iff.mpr (hwell _ (mem_subtrees_self _))
    rw [ids_split, nodup_cons] at hids
    rw [items_split] at hitems hitemsNew
    obtain ⟨below, hbelow, hclaims⟩ := foldlM_complete ids DockTree.items
      (fun state kid => validateSubtree nodes rest kid.id state)
      { state with marks := state.marks.insert key .visiting }
      (fun state kid hkid hkeysNew hkidItemsNew =>
        ih kid hkid (hstored.child hkid) (hwell.child hkid) (hrest kid hkid) state
          ((nodup_flatMap.mp hids.2).1 kid hkid)
          ((nodup_flatMap.mp hitems).1 kid hkid) hkeysNew hkidItemsNew)
      hids.2 hitems
      (fun other hother => ((Claims.mark state hkey .visiting).marks other).mpr
        ⟨fun heq => hids.1 (mem_singleton.mp heq ▸ hother),
          hidsNew other (by rw [ids_split]; exact mem_cons_of_mem _ hother)⟩)
      hitemsNew
    refine ⟨_, ?_, by simpa using Claims.node hkey hclaims⟩
    simp only [id_split, validateSubtree, hkey, hget, hsplit, foldlM_map]
    exact bind_eq_ok.mpr ⟨(), rfl, bind_eq_ok.mpr ⟨below, hbelow, rfl⟩⟩

end DockGraphValidator

/-- A floating tree that passes validation. -/
structure FloatingTree.WellFormed (entry : FloatingTree) : Prop where
  tree : entry.tree.WellFormed
  floating : ∃ id child, entry.tree = .floating id child
  bounds : boundsIsFiniteWithNonNegativeSize entry.bounds = true

/-- What validation asks of a forest. -/
structure DockForest.Valid (forest : DockForest) : Prop where
  root : ∀ space tree, (forest space).root = some tree → tree.WellFormed
  floatings : ∀ space, ∀ entry ∈ (forest space).floatings, entry.WellFormed
  central : ∀ space central node, (forest space).central = some central →
    central.node = some node → ∃ root, (forest space).root = some root ∧ node ∈ root.ids
  items : forest.ItemsDistinct

namespace DockGraph

variable {self : DockGraph}

open DockGraphValidator

variable {state after : DockGraphValidator}

theorem validateRoot_ok {entry : DockSpaceId × DockNodeId}
    (h : self.validateRoot state entry = .ok after) :
    ∃ out : DockSpaceId × DockTree,
      (out.1 = entry.1 ∧ out.2.id = entry.2 ∧ Stored self.nodes out.2 ∧ out.2.WellFormed) ∧
      Claims state after out.2.ids out.2.items := by
  rw [validateRoot, guard_eq_ok] at h
  obtain ⟨tree, ⟨hid, hstored, hwell⟩, hclaims⟩ := validateSubtree_ok h.2
  exact ⟨(entry.1, tree), ⟨rfl, hid, hstored, hwell⟩, hclaims⟩

theorem validateFloating_ok {space : DockSpaceId} {container : DockFloatingContainer}
    (h : self.validateFloating space state container = .ok after) :
    ∃ entry : FloatingTree,
      (entry.container = container ∧ Stored self.nodes entry.tree ∧ entry.WellFormed) ∧
      Claims state after entry.tree.ids entry.tree.items := by
  rw [validateFloating, guard_eq_ok] at h
  obtain ⟨hbounds, h⟩ := h
  split at h
  · next child hget =>
    obtain ⟨tree, ⟨hid, hstored, hwell⟩, hclaims⟩ := validateSubtree_ok h
    have hnode : tree.node = .floating child := by
      have htop := hstored.get
      rw [hid] at htop
      exact some.inj (htop.symm.trans hget)
    have hfloating : ∃ id low, tree = .floating id low := by
      cases tree with
      | tabs id items selected | split id axis kids fractions => cases hnode
      | floating id low => exact ⟨id, low, rfl⟩
    refine ⟨⟨tree, container.bounds⟩, ⟨?_, hstored, hwell, hfloating, by simpa using hbounds⟩,
      hclaims⟩
    rw [FloatingTree.container, hid]
  · cases h
  · cases h

theorem validateFloatings_ok {entry : DockSpaceId × List DockFloatingContainer}
    (h : entry.2.foldlM (self.validateFloating entry.1) state = .ok after) :
    ∃ out : DockSpaceId × List FloatingTree,
      (out.1 = entry.1 ∧ out.2.map FloatingTree.container = entry.2 ∧
        ∀ low ∈ out.2, Stored self.nodes low.tree ∧ low.WellFormed) ∧
      Claims state after (out.2.flatMap fun low => low.tree.ids)
        (out.2.flatMap fun low => low.tree.items) := by
  obtain ⟨outs, houts, hclaims⟩ := foldlM_claims
    (fun state container _ after hstep => validateFloating_ok hstep) h
  refine ⟨(entry.1, outs), ⟨rfl, map_eq_of_forall₂ (fun hlow => hlow.1) houts, ?_⟩, hclaims⟩
  intro low hlow
  obtain ⟨container, _, hpair⟩ := exists_left_of_forall₂ houts hlow
  exact hpair.2

theorem validate_ok_steps : self.validate = .ok () ↔ ∃ rooted floated,
      self.roots.toList.foldlM self.validateRoot .new = .ok rooted ∧
      self.floatings.toList.foldlM (fun state entry =>
        entry.2.foldlM (self.validateFloating entry.1) state) rooted = .ok floated ∧
      ∀ entry ∈ self.centralRegions.toList, self.validateCentral entry = .ok () := by
  rw [validate, validateWithUnreachableNodes]
  simp only [bind_eq_ok, if_true]
  constructor
  · rintro ⟨rooted, hroots, floated, hfloatings, _, hcentral, _⟩
    exact ⟨rooted, floated, hroots, hfloatings, forM_eq_ok.mp hcentral⟩
  · rintro ⟨rooted, floated, hroots, hfloatings, hcentral⟩
    exact ⟨rooted, hroots, floated, hfloatings, (), forM_eq_ok.mpr hcentral, trivial⟩

/-- Parts listed once over all spaces are listed once in each, and no two spaces
share one. -/
theorem parts_apart {γ : Type} (part : DockTree → List γ)
    {roots : List (DockSpaceId × DockTree)} {floatings : List (DockSpaceId × List FloatingTree)}
    (hnodup : ((roots.flatMap fun entry => part entry.2) ++
      floatings.flatMap fun entry => entry.2.flatMap fun low => part low.tree).Nodup)
    (forest : DockForest)
    (hroot : ∀ space tree, (forest space).root = some tree → (space, tree) ∈ roots)
    (hfloatings : ∀ space, (forest space).floatings ≠ [] →
      (space, (forest space).floatings) ∈ floatings) :
    (∀ space, ((forest space).trees.flatMap part).Nodup) ∧
      ∀ first second value, value ∈ (forest first).trees.flatMap part →
        value ∈ (forest second).trees.flatMap part → first = second := by
  obtain ⟨hroots, hfloats, hdisjoint⟩ := nodup_append.mp hnodup
  have hsplit : ∀ space, (forest space).trees.flatMap part = (forest space).root.toList.flatMap part
      ++ (forest space).floatings.flatMap fun low => part low.tree := by
    intro space
    rw [SpaceTrees.trees, flatMap_append, flatMap_map]
  have hinRoots : ∀ space value, value ∈ (forest space).root.toList.flatMap part →
      ∃ tree, (space, tree) ∈ roots ∧ value ∈ part tree := by
    intro space value hvalue
    obtain ⟨tree, htree, hin⟩ := mem_flatMap.mp hvalue
    exact ⟨tree, hroot space tree (mem_toList.mp htree), hin⟩
  have hinFloats : ∀ space value,
      value ∈ ((forest space).floatings.flatMap fun low => part low.tree) →
      (space, (forest space).floatings) ∈ floatings := by
    intro space value hvalue
    apply hfloatings
    rintro hnil
    rw [hnil] at hvalue
    cases hvalue
  have hcross : ∀ first second value, value ∈ (forest first).root.toList.flatMap part →
      value ∉ (forest second).floatings.flatMap fun low => part low.tree := by
    intro first second value hvalue hin
    obtain ⟨tree, htree, hpart⟩ := hinRoots first value hvalue
    exact hdisjoint value (mem_flatMap.mpr ⟨_, htree, hpart⟩) value
      (mem_flatMap.mpr ⟨_, hinFloats second value hin, hin⟩) rfl
  constructor
  · intro space
    rw [hsplit, nodup_append]
    refine ⟨?_, ?_, fun value hvalue other hother heq =>
      hcross space space value hvalue (heq ▸ hother)⟩
    · cases htree : (forest space).root with
      | none => exact nodup_nil
      | some tree => simpa using (nodup_flatMap.mp hroots).1 _ (hroot space tree htree)
    · by_cases hnil : (forest space).floatings = []
      · rw [hnil]
        exact nodup_nil
      · exact (nodup_flatMap.mp hfloats).1 _ (hfloatings space hnil)
  · intro first second value hfirst hsecond
    rw [hsplit, mem_append] at hfirst hsecond
    rcases hfirst with hfirst | hfirst <;> rcases hsecond with hsecond | hsecond
    · obtain ⟨tree, htree, hin⟩ := hinRoots first value hfirst
      obtain ⟨tree', htree', hin'⟩ := hinRoots second value hsecond
      exact congrArg Prod.fst (eq_of_mem_flatMap_nodup hroots htree htree' hin hin')
    · exact (hcross first second value hfirst hsecond).elim
    · exact (hcross second first value hsecond hfirst).elim
    · exact congrArg Prod.fst (eq_of_mem_flatMap_nodup hfloats (hinFloats first value hfirst)
        (hinFloats second value hsecond) hfirst hsecond)

/-- A valid graph holds a valid forest. -/
theorem validate_ok (h : self.validate = .ok ()) :
    ∃ forest : DockForest, self.Holds forest ∧ forest.Valid := by
  obtain ⟨rooted, floated, hroots, hfloatings, hcentral⟩ := validate_ok_steps.mp h
  obtain ⟨rootTrees, hrootTrees, hrootClaims⟩ := foldlM_claims
    (fun state entry _ after hstep => validateRoot_ok hstep) hroots
  obtain ⟨floatTrees, hfloatTrees, hfloatClaims⟩ := foldlM_claims
    (fun state entry _ after hstep => validateFloatings_ok hstep) hfloatings
  have hclaims := hrootClaims.trans hfloatClaims
  have hrootAt : ∀ space, ∃ root : Option DockTree, self.root space = root.map DockTree.id ∧ ∀ tree,
      root = some tree → (space, tree) ∈ rootTrees ∧ Stored self.nodes tree ∧ tree.WellFormed := by
    intro space
    cases hget : self.roots[space]? with
    | none => exact ⟨none, hget, fun tree heq => nomatch heq⟩
    | some root =>
      obtain ⟨⟨owner, tree⟩, hmem, howner, hid, hstored, hwell⟩ :=
        exists_right_of_forall₂ hrootTrees ((mem_toList_iff_get _ _ _).mpr hget)
      obtain rfl : owner = space := howner
      refine ⟨some tree, hget.trans (congrArg some hid.symm), ?_⟩
      intro other heq
      cases heq
      exact ⟨hmem, hstored, hwell⟩
  have hfloatAt : ∀ space, ∃ floatings : List FloatingTree, self.floatingContainers space =
      floatings.map FloatingTree.container ∧ (floatings ≠ [] → (space, floatings) ∈ floatTrees) ∧ ∀
      low ∈ floatings, Stored self.nodes low.tree ∧ low.WellFormed := by
    intro space
    cases hget : self.floatings[space]? with
    | none =>
      refine ⟨[], ?_, fun hne => absurd rfl hne, fun low hlow => nomatch hlow⟩
      rw [floatingContainers, hget]
      rfl
    | some containers =>
      obtain ⟨⟨owner, floatings⟩, hmem, howner, hmap, hall⟩ :=
        exists_right_of_forall₂ hfloatTrees ((mem_toList_iff_get _ _ _).mpr hget)
      obtain rfl : owner = space := howner
      refine ⟨floatings, ?_, fun _ => hmem, hall⟩
      rw [floatingContainers, hget]
      exact hmap.symm
  choose root hroot hrootMem using hrootAt
  choose floatings hcontainers hfloatMem hfloatAll using hfloatAt
  let forest : DockForest := fun space => ⟨root space, floatings space, self.centralRegion space⟩
  have hids := parts_apart DockTree.ids hclaims.keysNodup forest
    (fun space tree heq => (hrootMem space tree heq).1) hfloatMem
  have hitems := parts_apart DockTree.items hclaims.itemsNodup forest
    (fun space tree heq => (hrootMem space tree heq).1) hfloatMem
  have hholds : self.Holds forest := by
    refine ⟨hroot, hcontainers, fun _ => rfl, ?_, hids.1, hids.2 _ _ _⟩
    intro space tree htree
    rcases mem_append.mp htree with hin | hin
    · exact (hrootMem space tree (mem_toList.mp hin)).2.1
    · obtain ⟨low, hlow, rfl⟩ := mem_map.mp hin
      exact (hfloatAll space low hlow).1
  refine ⟨forest, hholds, fun space tree heq => (hrootMem space tree heq).2.2,
    fun space low hlow => (hfloatAll space low hlow).2, ?_, hitems.1, hitems.2 _ _ _⟩
  intro space central node hget hnode
  have hcheck := hcentral (space, central) ((mem_toList_iff_get _ _ _).mpr hget)
  rw [validateCentral] at hcheck
  simp only [hnode] at hcheck
  rw [guard_eq_ok] at hcheck
  exact hholds.rootSubtreeContains_iff.mp (by simpa using hcheck.1)

theorem keys_toList_nodup {ν : Type} (m : KeyMap DockSpaceId ν) :
    (m.toList.map Prod.fst).Nodup := by
  rw [Std.ExtTreeMap.map_fst_toList_eq_keys]
  exact keys_nodup m

variable {forest : DockForest}

theorem Holds.validateRoot_complete (h : self.Holds forest)
    (hvalid : forest.Valid) {entry : DockSpaceId × DockNodeId} {tree : DockTree}
    (htree : (forest entry.1).root = some tree) (hid : tree.id = entry.2)
    (state : DockGraphValidator) (hids : ∀ key ∈ tree.ids, state.marks[key]? = none)
    (hitems : ∀ item ∈ tree.items, state.items[item]? = none) :
    ∃ after, self.validateRoot state entry = .ok after ∧
      Claims state after tree.ids tree.items := by
  have hmem : tree ∈ (forest entry.1).trees := by simp [SpaceTrees.trees, htree]
  have hstored := h.stored _ tree hmem
  have hnodup := h.tree_nodup hmem
  obtain ⟨after, hafter, hclaims⟩ := validateSubtree_complete hstored
    (hvalid.root _ tree htree) (self.ids_length_le_fuel hstored hnodup) state hnodup
    ((nodup_flatMap.mp (hvalid.items.nodup entry.1)).1 tree hmem) hids hitems
  refine ⟨after, ?_, hclaims⟩
  rw [validateRoot, if_neg, ← hid]
  · exact hafter
  · rw [node, ← hid, hstored.get]
    simp

theorem Holds.validateFloating_complete (h : self.Holds forest)
    (hvalid : forest.Valid) {space : DockSpaceId} {entry : FloatingTree}
    (hentry : entry ∈ (forest space).floatings) (state : DockGraphValidator)
    (hids : ∀ key ∈ entry.tree.ids, state.marks[key]? = none)
    (hitems : ∀ item ∈ entry.tree.items, state.items[item]? = none) :
    ∃ after, self.validateFloating space state entry.container = .ok after ∧
      Claims state after entry.tree.ids entry.tree.items := by
  have hmem : entry.tree ∈ (forest space).trees := mem_append_right _ (mem_map_of_mem hentry)
  have hstored := h.stored _ _ hmem
  have hnodup := h.tree_nodup hmem
  have hwell := hvalid.floatings space entry hentry
  obtain ⟨after, hafter, hclaims⟩ := validateSubtree_complete hstored hwell.tree
    (self.ids_length_le_fuel hstored hnodup) state hnodup
    ((nodup_flatMap.mp (hvalid.items.nodup space)).1 _ hmem) hids hitems
  obtain ⟨id, child, htree⟩ := hwell.floating
  have hnode : self.node entry.tree.id = some (.floating child.id) := by
    rw [node, hstored.get, htree]
    rfl
  refine ⟨after, ?_, hclaims⟩
  simp only [validateFloating, FloatingTree.container, hwell.bounds, hnode]
  exact hafter

/-- Parts listed once in each space and shared by no two are listed once over all
spaces. -/
theorem parts_nodup (self : DockGraph) {γ : Type} (part : DockTree → List γ)
    (hnodup : ∀ space, ((forest space).trees.flatMap part).Nodup)
    (hapart : ∀ first second value, value ∈ (forest first).trees.flatMap part →
      value ∈ (forest second).trees.flatMap part → first = second) :
    (self.roots.toList.flatMap fun entry => (forest entry.1).root.toList.flatMap part).Nodup ∧
      (self.floatings.toList.flatMap fun entry =>
        (forest entry.1).floatings.flatMap fun low => part low.tree).Nodup ∧
      ∀ value, value ∈ (self.floatings.toList.flatMap fun entry =>
          (forest entry.1).floatings.flatMap fun low => part low.tree) →
        value ∉ self.roots.toList.flatMap fun entry =>
          (forest entry.1).root.toList.flatMap part := by
  have hsplit : ∀ space, (forest space).trees.flatMap part = (forest space).root.toList.flatMap part
      ++ (forest space).floatings.flatMap fun low => part low.tree := by
    intro space
    rw [SpaceTrees.trees, flatMap_append, flatMap_map]
  have hroot : ∀ space value, value ∈ (forest space).root.toList.flatMap part →
      value ∈ (forest space).trees.flatMap part := by
    intro space value hvalue
    rw [hsplit]
    exact mem_append_left _ hvalue
  have hfloat : ∀ space value, value ∈ ((forest space).floatings.flatMap fun low => part low.tree) →
      value ∈ (forest space).trees.flatMap part := by
    intro space value hvalue
    rw [hsplit]
    exact mem_append_right _ hvalue
  have hparts := fun space => nodup_append.mp (hsplit space ▸ hnodup space)
  refine ⟨?_, ?_, ?_⟩
  · apply nodup_flatMap_of_keys (keys_toList_nodup self.roots)
    · exact fun entry _ => (hparts entry.1).1
    · exact fun first _ second _ value hvalue hvalue' =>
        hapart _ _ value (hroot _ _ hvalue) (hroot _ _ hvalue')
  · apply nodup_flatMap_of_keys (keys_toList_nodup self.floatings)
    · exact fun entry _ => (hparts entry.1).2.1
    · exact fun first _ second _ value hvalue hvalue' =>
        hapart _ _ value (hfloat _ _ hvalue) (hfloat _ _ hvalue')
  · intro value hvalue hin
    obtain ⟨first, _, hfirst⟩ := mem_flatMap.mp hvalue
    obtain ⟨second, _, hsecond⟩ := mem_flatMap.mp hin
    have hsame := hapart _ _ value (hfloat _ _ hfirst) (hroot _ _ hsecond)
    rw [← hsame] at hsecond
    exact (hparts first.1).2.2 value hsecond value hfirst rfl

/-- A graph that holds a valid forest is valid. -/
theorem Holds.validate_complete (h : self.Holds forest)
    (hvalid : forest.Valid) : self.validate = .ok () := by
  have hids := parts_nodup self ids h.nodup fun first second value => h.apart
  have hitems := parts_nodup self items hvalid.items.nodup
    fun first second value => hvalid.items.apart
  obtain ⟨rooted, hrooted, hrootClaims⟩ := foldlM_complete
    (fun entry => (forest entry.1).root.toList.flatMap ids)
    (fun entry => (forest entry.1).root.toList.flatMap items) self.validateRoot .new
    (by
      intro state entry hentry hkeysNew hitemsNew
      have hroot := h.root entry.1
      rw [DockGraph.root, (mem_toList_iff_get _ _ _).mp hentry] at hroot
      obtain ⟨tree, htree, hid⟩ := map_eq_some_iff.mp hroot.symm
      rw [htree, toList_some, flatMap_singleton] at hkeysNew hitemsNew ⊢
      rw [flatMap_singleton]
      exact h.validateRoot_complete hvalid htree hid state hkeysNew hitemsNew)
    hids.1 hitems.1 (fun key _ => by simp [DockGraphValidator.new])
    (fun item _ => by simp [DockGraphValidator.new])
  obtain ⟨floated, hfloated, _⟩ := foldlM_complete
    (fun entry : DockSpaceId × List DockFloatingContainer =>
      (forest entry.1).floatings.flatMap fun low => low.tree.ids)
    (fun entry => (forest entry.1).floatings.flatMap fun low => low.tree.items)
    (fun state entry => entry.2.foldlM (self.validateFloating entry.1) state) rooted
    (by
      intro state entry hentry hkeysNew hitemsNew
      have hcontainers := h.floatings entry.1
      rw [floatingContainers, (mem_toList_iff_get _ _ _).mp hentry, getD_some] at hcontainers
      rw [hcontainers, foldlM_map]
      have hids := (h.trees_nodup entry.1).2.1
      have hitems := hvalid.items.nodup entry.1
      rw [SpaceTrees.items, SpaceTrees.trees, flatMap_append, flatMap_map, nodup_append] at hitems
      exact foldlM_complete (fun low => low.tree.ids) (fun low => low.tree.items) _ state
        (fun state low hlow => h.validateFloating_complete hvalid hlow state)
        hids hitems.2.1 hkeysNew hitemsNew)
    hids.2.1 hitems.2.1
    (fun key hkey => (hrootClaims.marks key).mpr
      ⟨hids.2.2 key hkey, by simp [DockGraphValidator.new]⟩)
    (fun item hitem => (hrootClaims.held item).mpr
      ⟨hitems.2.2 item hitem, by simp [DockGraphValidator.new]⟩)
  refine validate_ok_steps.mpr ⟨rooted, floated, hrooted, hfloated, ?_⟩
  intro entry hentry
  have hcentral := h.central entry.1
  rw [centralRegion, (mem_toList_iff_get _ _ _).mp hentry] at hcentral
  rw [validateCentral]
  cases hnode : entry.2.node with
  | none => rfl
  | some node =>
    have hbelow := hvalid.central entry.1 entry.2 node hcentral.symm hnode
    simp [h.rootSubtreeContains_iff.mpr hbelow]

theorem validate_ok_iff :
    self.validate = .ok () ↔ ∃ forest : DockForest, self.Holds forest ∧ forest.Valid :=
  ⟨validate_ok, fun ⟨_, hholds, hvalid⟩ => hholds.validate_complete hvalid⟩

end DockGraph

end OpenGpui.Docking
