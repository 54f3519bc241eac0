/-
Moves between the spaces of a forest: something is taken out of one space and put into
another one.  What is placed changes by exactly what was taken or put.
-/
import OpenGpui.Docking.ValidForest
import OpenGpui.Docking.EdgeDockRefines

namespace OpenGpui.Docking

open List Function SpaceTrees

open DockTree

/-- A tree at which the plan can dock another one. -/
def DockTree.Accepts (plan : DockEdgeDockPlan) (target : DockTree) : Prop :=
  match plan with
  | .insertIntoSplit _ zone anchorChild anchorIndex insertIndex _ _ =>
    ∃ id axis kids fractions, target = .split id axis kids fractions ∧ zone.axis = some axis ∧
      kids.length = fractions.length ∧ (kids.map DockTree.id)[anchorIndex]? = some anchorChild ∧
      insertIndex ≤ kids.length ∧ edgeInsertIndexMatchesZone zone anchorIndex insertIndex = true
  | .wrapTarget _ axis zone _ => zone.axis = some axis

/-- A split with other fractions. -/
def DockTree.withFractions (fractions : List Scalar) : DockTree → DockTree
  | split key axis children _ => split key axis children fractions
  | tabs key items selected => tabs key items selected
  | floating key child => floating key child

/-- The docked tree comes beside what is at the target. -/
theorem DockTree.dock_leaves_perm {plan : DockEdgeDockPlan} {target : DockTree}
    (h : target.Accepts plan) (new : DockNodeId) (added : DockTree) :
    (dock plan new added target).leaves.Perm (added.leaves ++ target.leaves) := by
  cases plan with
  | insertIntoSplit split zone anchorChild anchorIndex insertIndex sizing scope =>
    obtain ⟨id, axis, kids, fractions, rfl, _, _, _, hinsert, _⟩ := h
    simp only [dock, leaves_split]
    exact (perm_insertIdx added kids hinsert).flatMap_right leaves
  | wrapTarget key axis zone sizing =>
    simp only [dock, leaves_split]
    cases zone.leads with
    | true => simp
    | false => simpa using perm_append_comm

/-- Moving a container on the screen leaves its tree alone. -/
theorem FloatingTree.map_tree_set {floatings : List FloatingTree} {index : Nat}
    {entry : FloatingTree} (hentry : floatings[index]? = some entry) (bounds : Bounds) :
    (floatings.set index { entry with bounds := bounds }).map FloatingTree.tree =
      floatings.map FloatingTree.tree := by
  obtain ⟨hlt, rfl⟩ := List.getElem?_eq_some_iff.mp hentry
  rw [List.map_set, ← List.getElem_map FloatingTree.tree]
  exact List.set_getElem_self (by simpa using hlt)

namespace DockForest

variable {forest : DockForest} {space other : DockSpaceId}

/-- The forest with other items in one stack. -/
def setTabs (forest : DockForest) (tabs : DockNodeId) (items : List DockItemId)
    (selected : Option DockItemId) : DockForest :=
  forest.rewrite tabs fun _ => .tabs tabs items selected

theorem setTabs_setTabs (forest : DockForest) (tabs : DockNodeId)
    (items next : List DockItemId) (selected nextSelected : Option DockItemId) :
    (forest.setTabs tabs items selected).setTabs tabs next nextSelected =
      forest.setTabs tabs next nextSelected := by
  have htree : ∀ tree : DockTree,
      (tree.rewrite tabs fun _ => .tabs tabs items selected).rewrite tabs
        (fun _ => .tabs tabs next nextSelected) =
      tree.rewrite tabs fun _ => .tabs tabs next nextSelected := by
    intro tree
    have hid : ∀ tree : DockTree,
        ((fun _ => .tabs tabs items selected : DockTree → DockTree) tree).id = tabs :=
      fun _ => rfl
    exact rewrite_rewrite hid tree
  funext space
  simp only [setTabs, rewrite, SpaceTrees.rewrite, SpaceTrees.mapTrees, Option.map_map,
    map_map, comp_def, htree]

/-- Something that is taken out of a space, named by its items. -/
inductive Detach (forest : DockForest) (space : DockSpaceId) :
    List DockItemId → DockForest → Prop
  | item {tabs : DockNodeId} {items : List DockItemId} {selected : Option DockItemId}
      {item : DockItemId} {index : Nat} (next : Option DockItemId) :
      .tabs tabs items selected ∈ (forest space).subtrees →
      items.findIdx? (· == item) = some index →
      Detach forest space [item] (forest.setTabs tabs (items.eraseIdx index) next)
  | tabs {tabs : DockNodeId} {items : List DockItemId} {selected : Option DockItemId} :
      .tabs tabs items selected ∈ (forest space).subtrees →
      (forest space).root ≠ some (.tabs tabs items selected) →
      Detach forest space items (forest.setTabs tabs [] none)
  | root {tabs : DockNodeId} {items : List DockItemId} {selected : Option DockItemId} :
      (forest space).root = some (.tabs tabs items selected) →
      Detach forest space items (forest.removeRoot space)
  | floating {index : Nat} {floating : DockNodeId} {tree : DockTree} {bounds : Bounds} :
      (forest space).floatings[index]? = some ⟨.floating floating tree, bounds⟩ →
      Detach forest space tree.items
        (forest.setFloatings space ((forest space).floatings.eraseIdx index))

/-- A tree that is put into a space. -/
inductive Attach (forest : DockForest) (space : DockSpaceId) (payload : DockTree) :
    DockForest → Prop
  | merge {target : DockNodeId} {own merged : List DockItemId}
      {selected : Option DockItemId} (next : Option DockItemId) :
      .tabs target own selected ∈ (forest space).subtrees →
      merged.Perm (own ++ payload.items) →
      Attach forest space payload (forest.setTabs target merged next)
  | dock {plan : DockEdgeDockPlan} {target : DockTree} (new : DockNodeId) :
      target ∈ (forest space).subtrees → target.id = plan.targetNode → target.Accepts plan →
      Attach forest space payload (forest.rewrite plan.targetNode (DockTree.dock plan new payload))
  | root : (forest space).root = none →
      Attach forest space payload (forest.placeRoot space payload)
  | float (new : DockNodeId) (bounds : Bounds) :
      Attach forest space payload (forest.setFloatings space
        ((forest space).floatings ++ [⟨.floating new payload, bounds⟩]))

variable {entry : Leaf}

theorem hasLeaf_iff : forest.HasLeaf entry ↔
      ∃ space selected, .tabs entry.1 entry.2 selected ∈ (forest space).subtrees := by
  exact exists_congr fun space => mem_leaves_iff

theorem leaves_keys_sublist (self : SpaceTrees) : (self.leaves.map Prod.fst).Sublist self.ids := by
  have htree : ∀ tree : DockTree, (tree.leaves.map Prod.fst).Sublist tree.ids := by
    intro tree
    induction tree using induction with
    | tabs id items selected => simp
    | floating id child ih =>
      rw [leaves_floating, ids_floating]
      exact ih.cons _
    | split id axis kids fractions ih =>
      rw [leaves_split, ids_split, map_flatMap]
      exact (List.Sublist.flatMap_right _ ih).cons _
  rw [SpaceTrees.leaves, map_flatMap]
  exact List.Sublist.flatMap_right _ fun tree _ => htree tree

namespace Proper

theorem rewrite_of_ne (h : forest.Proper) {key : DockNodeId} (hkey : key ∈ (forest space).ids)
    (f : DockTree → DockTree) (hother : other ≠ space) :
    forest.rewrite key f other = forest other := by
  apply SpaceTrees.rewrite_of_not_mem
  intro hmem
  exact hother (h.apart hmem hkey)

variable {tabs : DockNodeId} {items : List DockItemId} {selected : Option DockItemId}

variable (h : forest.Proper)

include h

/-- Changing a stack changes its own leaf and no other. -/
theorem hasLeaf_setTabs (hsub : .tabs tabs items selected ∈ (forest space).subtrees)
    (next : List DockItemId) (nextSelected : Option DockItemId) (entry : Leaf) :
    (forest.setTabs tabs next nextSelected).HasLeaf entry ↔
      entry = (tabs, next) ∨ (forest.HasLeaf entry ∧ entry.1 ≠ tabs) := by
  have hkey : tabs ∈ (forest space).ids := mem_ids_iff.mpr ⟨_, hsub, rfl⟩
  obtain ⟨before, after, hleaves, hrewrite⟩ := leaves_rewrite (h.nodup space) hsub
  have hnew := hrewrite fun _ => .tabs tabs next nextSelected
  rw [leaves_tabs] at hleaves hnew
  have hspace : ∀ entry : Leaf, entry ∈ before ++ after ↔
      entry ∈ (forest space).leaves ∧ entry.1 ≠ tabs := by
    intro entry
    have hnodup := (leaves_keys_sublist (forest space)).nodup (h.nodup space)
    rw [hleaves, append_assoc, map_append, map_append, nodup_append, nodup_append] at hnodup
    obtain ⟨_, ⟨_, _, hafter⟩, hbefore⟩ := hnodup
    rw [hleaves]
    simp only [mem_append, mem_singleton]
    constructor
    · rintro (hin | hin)
      · exact ⟨.inl (.inl hin), hbefore entry.1 (mem_map_of_mem hin) tabs (by simp)⟩
      · exact ⟨.inr hin, fun heq => hafter tabs (by simp) entry.1 (mem_map_of_mem hin)
          heq.symm⟩
    · rintro ⟨(hin | rfl) | hin, hne⟩
      · exact .inl hin
      · exact (hne rfl).elim
      · exact .inr hin
  have hthere : ∀ entry : Leaf, entry ∈ (forest.setTabs tabs next nextSelected space).leaves ↔
      entry = (tabs, next) ∨ (entry ∈ (forest space).leaves ∧ entry.1 ≠ tabs) := by
    intro entry
    rw [← hspace, setTabs, DockForest.rewrite]
    have hlist : ((forest space).rewrite tabs fun _ => .tabs tabs next nextSelected).leaves =
        before ++ [(tabs, next)] ++ after := hnew
    rw [hlist]
    simp only [mem_append, mem_singleton]
    tauto
  constructor
  · rintro ⟨owner, hentry⟩
    by_cases hother : owner = space
    · subst hother
      rcases (hthere entry).mp hentry with heq | ⟨hin, hne⟩
      · exact .inl heq
      · exact .inr ⟨⟨owner, hin⟩, hne⟩
    · rw [setTabs, h.rewrite_of_ne hkey _ hother] at hentry
      refine .inr ⟨⟨owner, hentry⟩, ?_⟩
      rintro rfl
      exact hother (h.apart (leaf_mem_ids hentry) hkey)
  · rintro (rfl | ⟨⟨owner, hentry⟩, hne⟩)
    · exact ⟨space, (hthere _).mpr (.inl rfl)⟩
    · by_cases hother : owner = space
      · subst hother
        exact ⟨owner, (hthere entry).mpr (.inr ⟨hentry, hne⟩)⟩
      · refine ⟨owner, ?_⟩
        rw [setTabs, h.rewrite_of_ne hkey _ hother]
        exact hentry

/-- The leaf of a stack is known by its key. -/
theorem leaf_of_key {entry : Leaf} (hentry : forest.HasLeaf entry)
    (hsub : .tabs tabs items selected ∈ (forest space).subtrees) (hkey : entry.1 = tabs) :
    entry = (tabs, items) := by
  obtain ⟨owner, hentry⟩ := hentry
  have hspace : owner = space := h.apart (leaf_mem_ids hentry)
    (mem_ids_iff.mpr ⟨_, hsub, hkey.symm⟩)
  subst hspace
  have hnodup := (leaves_keys_sublist (forest owner)).nodup (h.nodup owner)
  exact inj_on_of_nodup_map hnodup hentry (mem_leaves_iff.mpr ⟨_, hsub⟩) hkey

/-- Changing a stack leaves every node in its place. -/
theorem ids_setTabs (hsub : .tabs tabs items selected ∈ (forest space).subtrees)
    (next : List DockItemId) (nextSelected : Option DockItemId) (other : DockSpaceId) :
    (forest.setTabs tabs next nextSelected other).ids = (forest other).ids := by
  have hkey : tabs ∈ (forest space).ids := mem_ids_iff.mpr ⟨_, hsub, rfl⟩
  by_cases hother : other = space
  · subst hother
    obtain ⟨before, after, hids, hrewrite⟩ := ids_rewrite (h.nodup other) hsub
    have hnew := hrewrite fun _ => .tabs tabs next nextSelected
    rw [ids_tabs] at hids hnew
    rw [hids]
    exact hnew
  · rw [setTabs, h.rewrite_of_ne hkey _ hother]

/-- A forest with fewer nodes in each space has no node twice either. -/
theorem of_subperm {after : DockForest}
    (hids : ∀ space, (after space).ids.Subperm (forest space).ids) : after.Proper where
  nodup space := by
    obtain ⟨middle, hperm, hsub⟩ := hids space
    exact hperm.nodup_iff.mp (hsub.nodup (h.nodup space))
  apart hfirst hsecond := h.apart ((hids _).subset hfirst) ((hids _).subset hsecond)

end Proper

variable {item : DockItemId}

/-- An item is in one stack only. -/
theorem ItemsDistinct.leaf_unique (h : forest.ItemsDistinct) {first second : Leaf} (hfirst :
    forest.HasLeaf first) (hsecond : forest.HasLeaf second)
    (hin : item ∈ first.2) (hin' : item ∈ second.2) : first = second := by
  obtain ⟨space, hfirst⟩ := hfirst
  obtain ⟨other, hsecond⟩ := hsecond
  have hsame : space = other := h.apart (mem_items_iff.mpr ⟨first, hfirst, hin⟩)
    (mem_items_iff.mpr ⟨second, hsecond, hin'⟩)
  subst hsame
  have hnodup := h.nodup space
  rw [items_eq] at hnodup
  exact eq_of_mem_flatMap_nodup hnodup hfirst hsecond hin hin'

theorem ItemsDistinct.leaf_nodup (h : forest.ItemsDistinct)
    (hentry : forest.HasLeaf entry) : entry.2.Nodup := by
  obtain ⟨space, hentry⟩ := hentry
  have hnodup := h.nodup space
  rw [items_eq] at hnodup
  exact (nodup_flatMap.mp hnodup).1 entry hentry

variable {items : List DockItemId}

/-- Without its first occurrence an item is gone from a list without repetition. -/
theorem mem_eraseIdx_findIdx {other : DockItemId} {index : Nat}
    (hnodup : items.Nodup) (hindex : items.findIdx? (· == item) = some index) :
    other ∈ items.eraseIdx index ↔ other ∈ items ∧ other ≠ item := by
  obtain ⟨hlt, hitem, _⟩ := findIdx?_eq_some_iff_getElem.mp hindex
  have hperm := getElem_cons_eraseIdx_perm hlt
  have heq : items[index] = item := by simpa using hitem
  rw [heq] at hperm
  have hcons := hperm.nodup_iff.mpr hnodup
  rw [nodup_cons] at hcons
  rw [← hperm.mem_iff, mem_cons]
  constructor
  · intro hin
    exact ⟨.inr hin, fun hsame => hcons.1 (hsame ▸ hin)⟩
  · rintro ⟨hsame | hin, hne⟩
    · exact (hne hsame).elim
    · exact hin

variable {trees : SpaceTrees}

theorem placed_update : Placed (Function.update forest space trees) item ↔
      item ∈ trees.items ∨ ∃ other, other ≠ space ∧ item ∈ (forest other).items := by
  rw [placed_iff]
  constructor
  · rintro ⟨other, hin⟩
    by_cases hother : other = space
    · subst hother
      rw [update_self] at hin
      exact .inl hin
    · rw [update_of_ne hother] at hin
      exact .inr ⟨other, hother, hin⟩
  · rintro (hin | ⟨other, hother, hin⟩)
    · exact ⟨space, by rwa [update_self]⟩
    · exact ⟨other, by rwa [update_of_ne hother]⟩

theorem placed_iff_at (space : DockSpaceId) : forest.Placed item ↔
      item ∈ (forest space).items ∨ ∃ other, other ≠ space ∧ item ∈ (forest other).items := by
  rw [← placed_update, update_eq_self]

/-- Simplification loses and invents nothing. -/
theorem placed_simplifySpace : (forest.simplifySpace space).Placed item ↔ forest.Placed item := by
  rw [simplifySpace, placed_update, SpaceTrees.simplify_items, ← placed_iff_at]

/-- Trees that a space keeps without some of their items. -/
theorem placed_update_of_perm (hdistinct : forest.ItemsDistinct) {items : List DockItemId}
    (hperm : (forest space).items.Perm (items ++ trees.items)) :
    Placed (Function.update forest space trees) item ↔ forest.Placed item ∧ item ∉ items := by
  have hnodup := hperm.nodup_iff.mp (hdistinct.nodup space)
  rw [nodup_append] at hnodup
  rw [placed_update, placed_iff_at space, hperm.mem_iff, mem_append]
  constructor
  · rintro (hin | ⟨other, hother, hin⟩)
    · exact ⟨.inl (.inr hin), fun hitem => hnodup.2.2 item hitem item hin rfl⟩
    · refine ⟨.inr ⟨other, hother, hin⟩, fun hitem => hother ?_⟩
      apply hdistinct.apart hin
      rw [hperm.mem_iff]
      exact mem_append_left _ hitem
  · rintro ⟨(hin | hin) | hin, hnot⟩
    · exact (hnot hin).elim
    · exact .inl hin
    · exact .inr hin

variable {after : DockForest}

theorem Detach.placed (h : forest.Detach space items after) (hproper : forest.Proper)
    (hdistinct : forest.ItemsDistinct) (item : DockItemId) :
    after.Placed item ↔ forest.Placed item ∧ item ∉ items := by
  have hstack : ∀ {tabs own selected} (left : List DockItemId) (next : Option DockItemId),
      .tabs tabs own selected ∈ (forest space).subtrees →
      (item ∈ left ↔ item ∈ own ∧ item ∉ items) →
      (item ∈ items → item ∈ own) →
      ((forest.setTabs tabs left next).Placed item ↔ forest.Placed item ∧ item ∉ items) := by
    intro tabs own selected left next hsub hleft hitems
    have hleaf : forest.HasLeaf (tabs, own) := hasLeaf_iff.mpr ⟨space, selected, hsub⟩
    simp only [Placed, hproper.hasLeaf_setTabs hsub]
    constructor
    · rintro ⟨entry, rfl | ⟨hentry, hne⟩, hin⟩
      · obtain ⟨hown, hnot⟩ := hleft.mp hin
        exact ⟨⟨_, hleaf, hown⟩, hnot⟩
      · refine ⟨⟨entry, hentry, hin⟩, fun hitem => hne ?_⟩
        exact congrArg Prod.fst (hdistinct.leaf_unique hentry hleaf hin (hitems hitem))
    · rintro ⟨⟨entry, hentry, hin⟩, hnot⟩
      by_cases hkey : entry.1 = tabs
      · have heq : entry = (tabs, own) := hproper.leaf_of_key hentry hsub hkey
        subst heq
        exact ⟨(tabs, left), .inl rfl, hleft.mpr ⟨hin, hnot⟩⟩
      · exact ⟨entry, .inr ⟨hentry, hkey⟩, hin⟩
  cases h with
  | @item tabs own selected taken index next hsub hindex =>
    have hleaf : forest.HasLeaf (tabs, own) := hasLeaf_iff.mpr ⟨space, selected, hsub⟩
    apply hstack _ next hsub
    · rw [mem_eraseIdx_findIdx (hdistinct.leaf_nodup hleaf) hindex, mem_singleton]
    · intro hin
      rw [mem_singleton.mp hin]
      obtain ⟨hlt, hitem, _⟩ := findIdx?_eq_some_iff_getElem.mp hindex
      have heq : own[index] = taken := by simpa using hitem
      exact heq ▸ getElem_mem hlt
  | @tabs tabs own selected hsub hroot =>
    apply hstack _ none hsub
    · simp
    · exact fun hin => hin
  | @root tabs own selected hroot =>
    apply placed_update_of_perm hdistinct
    simp [SpaceTrees.items, SpaceTrees.trees, hroot]
  | @floating index floating tree bounds hentry =>
    obtain ⟨hlt, hget⟩ := List.getElem?_eq_some_iff.mp hentry
    have hcons := ((getElem_cons_eraseIdx_perm hlt).symm.map
      FloatingTree.tree).flatMap_right DockTree.items
    rw [hget, map_cons, flatMap_cons, items_floating] at hcons
    apply placed_update_of_perm hdistinct
    simp only [SpaceTrees.items, SpaceTrees.trees, flatMap_append]
    exact (hcons.append_left _).trans (perm_append_comm_assoc _ _ _)

theorem ids_update_subperm (h : trees.ids.Subperm (forest space).ids) (other : DockSpaceId) :
    (Function.update forest space trees other).ids.Subperm (forest other).ids := by
  by_cases hother : other = space
  · subst hother
    rwa [update_self]
  · rw [update_of_ne hother]

section

variable (h : forest.Detach space items after)

include h

theorem Detach.ids_subperm (hproper : forest.Proper) (other : DockSpaceId) :
    (after other).ids.Subperm (forest other).ids := by
  cases h with
  | item next hsub hindex | tabs hsub hroot => rw [hproper.ids_setTabs hsub]
  | root hroot =>
    apply ids_update_subperm
    simp only [SpaceTrees.ids, SpaceTrees.trees, flatMap_append]
    exact (sublist_append_right _ _).subperm
  | floating hentry =>
    apply ids_update_subperm
    simp only [SpaceTrees.ids, SpaceTrees.trees, flatMap_append]
    apply List.Sublist.subperm
    apply (List.Sublist.refl _).append
    exact ((eraseIdx_sublist _ _).map _).flatMap DockTree.ids

theorem Detach.proper (hproper : forest.Proper) : after.Proper :=
  hproper.of_subperm (h.ids_subperm hproper)

/-- Taking something out gives no space a root. -/
theorem Detach.root_eq_none {other : DockSpaceId}
    (hnone : (forest other).root = none) : (after other).root = none := by
  cases h with
  | item next hsub hindex | tabs hsub hroot =>
    simp [setTabs, rewrite, SpaceTrees.rewrite, SpaceTrees.mapTrees, hnone]
  | root hroot =>
    by_cases hother : other = space
    · rw [hother, removeRoot, update_self]
    · rwa [removeRoot, update_of_ne hother]
  | floating hentry =>
    by_cases hother : other = space
    · subst hother
      rwa [setFloatings, update_self]
    · rwa [setFloatings, update_of_ne hother]

end

theorem simplifySpace_root_eq_none {other : DockSpaceId} (hnone : (forest other).root = none) :
    (forest.simplifySpace space other).root = none := by
  by_cases hother : other = space
  · subst hother
    rw [simplifySpace]
    simp [SpaceTrees.simplify, hnone]
  · rwa [simplifySpace, update_of_ne hother]

theorem simplifySpace_ids_subperm (other : DockSpaceId) :
    (forest.simplifySpace space other).ids.Subperm (forest other).ids :=
  ids_update_subperm (SpaceTrees.simplify_ids_sublist _).subperm other

theorem Proper.simplifySpace (h : forest.Proper) (space : DockSpaceId) :
    (forest.simplifySpace space).Proper :=
  h.of_subperm simplifySpace_ids_subperm

/-- Docking adds the leaves of the docked tree. -/
theorem Proper.hasLeaf_dock (h : forest.Proper) {plan : DockEdgeDockPlan} {target : DockTree}
    (htarget : target ∈ (forest space).subtrees) (hid : target.id = plan.targetNode)
    (haccepts : target.Accepts plan) (new : DockNodeId) (payload : DockTree) (entry : Leaf) :
    (forest.rewrite plan.targetNode (dock plan new payload)).HasLeaf entry ↔
      forest.HasLeaf entry ∨ entry ∈ payload.leaves := by
  have hkey : target.id ∈ (forest space).ids := mem_ids_iff.mpr ⟨_, htarget, rfl⟩
  obtain ⟨before, after, hleaves, hrewrite⟩ := leaves_rewrite (h.nodup space) htarget
  have hnew := hrewrite (dock plan new payload)
  have hdocked := dock_leaves_perm haccepts new payload
  rw [← hid]
  have hthere : entry ∈ (forest.rewrite target.id (dock plan new payload) space).leaves ↔
      entry ∈ (forest space).leaves ∨ entry ∈ payload.leaves := by
    rw [DockForest.rewrite, hnew, hleaves]
    simp only [mem_append, hdocked.mem_iff]
    tauto
  constructor
  · rintro ⟨owner, hentry⟩
    by_cases howner : owner = space
    · subst howner
      exact (hthere.mp hentry).imp_left fun hin => ⟨owner, hin⟩
    · rw [h.rewrite_of_ne hkey _ howner] at hentry
      exact .inl ⟨owner, hentry⟩
  · rintro (⟨owner, hentry⟩ | hentry)
    · by_cases howner : owner = space
      · subst howner
        exact ⟨owner, hthere.mpr (.inl hentry)⟩
      · exact ⟨owner, by rwa [h.rewrite_of_ne hkey _ howner]⟩
    · exact ⟨space, hthere.mpr (.inr hentry)⟩

theorem Attach.placed {payload : DockTree}
    (h : forest.Attach space payload after) (hproper : forest.Proper) (item : DockItemId) :
    after.Placed item ↔ forest.Placed item ∨ item ∈ payload.items := by
  cases h with
  | @merge target own merged selected next hsub hmerged =>
    have hleaf : forest.HasLeaf (target, own) := hasLeaf_iff.mpr ⟨space, selected, hsub⟩
    simp only [Placed, hproper.hasLeaf_setTabs hsub]
    constructor
    · rintro ⟨entry, rfl | ⟨hentry, _⟩, hin⟩
      · rw [hmerged.mem_iff, mem_append] at hin
        exact hin.imp_left fun hown => ⟨_, hleaf, hown⟩
      · exact .inl ⟨entry, hentry, hin⟩
    · rintro (⟨entry, hentry, hin⟩ | hin)
      · by_cases hkey : entry.1 = target
        · refine ⟨(target, merged), .inl rfl, ?_⟩
          rw [hmerged.mem_iff, mem_append]
          left
          have heq : entry = (target, own) := hproper.leaf_of_key hentry hsub hkey
          rwa [heq] at hin
        · exact ⟨entry, .inr ⟨hentry, hkey⟩, hin⟩
      · exact ⟨(target, merged), .inl rfl, hmerged.mem_iff.mpr (mem_append_right _ hin)⟩
  | @dock plan target new htarget hid haccepts =>
    simp only [Placed, hproper.hasLeaf_dock htarget hid haccepts, DockTree.mem_items_iff]
    constructor
    · rintro ⟨entry, hentry | hentry, hin⟩
      · exact .inl ⟨entry, hentry, hin⟩
      · exact .inr ⟨entry, hentry, hin⟩
    · rintro (⟨entry, hentry, hin⟩ | ⟨entry, hentry, hin⟩)
      · exact ⟨entry, .inl hentry, hin⟩
      · exact ⟨entry, .inr hentry, hin⟩
  | root hnone =>
    have hitems : item ∈ ((forest space).placeRoot payload).items ↔
        item ∈ (forest space).items ∨ item ∈ payload.items := by
      simp only [SpaceTrees.placeRoot, SpaceTrees.items, SpaceTrees.trees, hnone,
        Option.toList_some, Option.toList_none, nil_append, cons_append, flatMap_cons, mem_append]
      exact or_comm
    rw [placeRoot, placed_update, placed_iff_at space, hitems]
    exact or_right_comm
  | float new bounds =>
    have hitems : item ∈ ({ forest space with floatings := (forest space).floatings ++
        [⟨.floating new payload, bounds⟩] } : SpaceTrees).items ↔
        item ∈ (forest space).items ∨ item ∈ payload.items := by
      simp only [SpaceTrees.items, SpaceTrees.trees, map_append, map_cons, map_nil, flatMap_append,
        flatMap_cons, flatMap_nil, append_nil, items_floating, mem_append]
      exact or_assoc.symm
    rw [setFloatings, placed_update, placed_iff_at space, hitems]
    exact or_right_comm

def setFractions (forest : DockForest) (split : DockNodeId) (fractions : List Scalar) :
    DockForest :=
  forest.rewrite split (withFractions fractions)

/-- Other fractions for splits of the forest, one after another. -/
inductive Resizes : DockForest → DockForest → Prop
  | refl (forest : DockForest) : Resizes forest forest
  | change {forest after : DockForest} {split : DockNodeId} {fractions : List Scalar} :
      UiCore.Normalized fractions →
      (∀ space, ∀ sub ∈ (forest space).subtrees, sub.id = split →
        sub.children.length = fractions.length) →
      Resizes (forest.setFractions split fractions) after → Resizes forest after

def simplifySpaces (forest : DockForest) (spaces : List DockSpaceId) : DockForest :=
  spaces.foldl simplifySpace forest

theorem placed_simplifySpaces {spaces : List DockSpaceId} :
    (forest.simplifySpaces spaces).Placed item ↔ forest.Placed item := by
  induction spaces generalizing forest with
  | nil => rfl
  | cons space rest ih => exact ih.trans placed_simplifySpace

theorem Proper.simplifySpaces (h : forest.Proper) (spaces : List DockSpaceId) :
    (forest.simplifySpaces spaces).Proper := by
  induction spaces generalizing forest with
  | nil => exact h
  | cons space rest ih => exact ih (h.simplifySpace space)

end DockForest

/-- The spaces between which an operation moves something. -/
def DockOp.movesBetween : DockOp → Option (DockSpaceId × DockSpaceId)
  | moveItem source _ target _ | moveTabs source _ target _ | moveFloating source _ target _
  | floatItemInWindow source _ target _ | floatTabsInWindow source _ target _ =>
    some (source, target)
  | _ => none

/-- The fractions an operation requests. -/
def DockOp.resizes : DockOp → Option (List DockSplitResize)
  | setSplitFractions key fractions => some [⟨key, fractions⟩]
  | setSplitFractionsMany updates => some updates
  | _ => none

namespace DockForest

/-- What the operations do to a forest. -/
inductive Step (forest : DockForest) : DockOp → DockForest → Prop
  | selectTab {tabs : DockNodeId} {items : List DockItemId} {item : DockItemId} :
      item ∈ items →
      (∀ space, ∀ sub ∈ (forest space).subtrees, sub.id = tabs →
        ∃ selected, sub = .tabs tabs items selected) →
      Step forest (.selectTab tabs item) (forest.setTabs tabs items (some item))
  | closeItem {space : DockSpaceId} {item : DockItemId} {taken : DockForest} :
      forest.Detach space [item] taken →
      Step forest (.closeItem space item) (taken.simplifySpace space)
  | openItem {space : DockSpaceId} {targetTabs : Option DockNodeId} {item : DockItemId}
      {insertIndex : Option Nat} {payload : DockTree} {after : DockForest} :
      ¬ forest.Placed item → payload.items = [item] → forest.Attach space payload after →
      Step forest (.openItem space targetTabs item insertIndex) after
  | move {op : DockOp} {source target : DockSpaceId} {items : List DockItemId}
      {payload : DockTree} {taken put : DockForest} (early late : List DockSpaceId) :
      op.movesBetween = some (source, target) →
      forest.Detach source items taken →
      payload.items = items →
      (taken.simplifySpaces early).Attach target payload put →
      target ∈ late → source ∈ early ++ late →
      (∀ space ∈ early, space = source) → (∀ space ∈ late, space = source ∨ space = target) →
      Step forest op (put.simplifySpaces late)
  | setFloatingBounds {space : DockSpaceId} {floating : DockNodeId} {bounds : Bounds}
      {index : Nat} {entry : FloatingTree} :
      (forest space).floatings[index]? = some entry →
      Step forest (.setFloatingBounds space floating bounds) (forest.setFloatings space
          ((forest space).floatings.set index { entry with bounds := bounds }))
  | raiseFloating {space : DockSpaceId} {floating : DockNodeId} {index : Nat} :
      Step forest (.raiseFloating space floating)
        (forest.setFloatings space (moveToEnd (forest space).floatings index))
  | resize {op : DockOp} {updates : List DockSplitResize} {after : DockForest} :
      op.resizes = some updates → Resizes forest after → Step forest op after

end DockForest

end OpenGpui.Docking
