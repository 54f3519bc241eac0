/-
Simplifying a space of a graph is simplifying the trees of its forest, and reclaiming
nodes leaves the forest as it is.
-/
import OpenGpui.Docking.ForestEdit

namespace OpenGpui.Docking

open List DockNodes Function KeyMap Option FloatingTree

open DockTree

namespace DockNodes

/-- The containers that remain, each with its simplified tree. -/
def keptFloatings (floatings : List FloatingTree) : List FloatingTree :=
  floatings.filterMap fun entry =>
    entry.tree.simplify.map fun tree => { entry with tree := tree }

/-- Containers are simplified independently of each other. -/
theorem simplifyFloatings_eq {floatings : List FloatingTree} {nodes : DockNodes} {fuel : Nat}
    (hstored : ∀ entry ∈ floatings, entry.tree.Stored nodes)
    (hnodup : (floatings.flatMap fun entry => entry.tree.ids).Nodup)
    (hfuel : ∀ entry ∈ floatings, entry.tree.ids.length ≤ fuel) :
    ∃ after, simplifyFloatings fuel (floatings.map container) nodes =
        ((keptFloatings floatings).map container, after) ∧
      (∀ entry ∈ keptFloatings floatings, entry.tree.Stored after) ∧
      Within nodes after (floatings.flatMap fun entry => entry.tree.ids) := by
  induction floatings generalizing nodes with
  | nil => exact ⟨nodes, rfl, fun entry hentry => (nomatch hentry), Within.refl _ _⟩
  | cons first rest ih =>
    rw [flatMap_cons] at hnodup ⊢
    obtain ⟨hfirst, hrest, hdisjoint⟩ := nodup_append.mp hnodup
    obtain ⟨middle, hsimplify, hkept, hwithin⟩ :=
      simplifySubtree_eq (hstored first mem_cons_self) hfirst (hfuel first mem_cons_self)
    have hlater : ∀ entry ∈ rest, entry.tree.Stored middle := by
      intro entry hentry
      apply (hstored entry (mem_cons_of_mem _ hentry)).within hwithin
      intro key hkey hmem
      exact hdisjoint key hmem key (mem_flatMap.mpr ⟨entry, hentry, hkey⟩) rfl
    obtain ⟨after, hfloatings, hstoredRest, hwithinRest⟩ :=
      ih hlater hrest fun entry hentry => hfuel entry (mem_cons_of_mem _ hentry)
    have hwhole : Within nodes after (first.tree.ids ++ rest.flatMap fun entry => entry.tree.ids) :=
      (hwithin.mono fun key hkey => mem_append_left _ hkey).trans
        (hwithinRest.mono fun key hkey => mem_append_right _ hkey)
    refine ⟨after, ?_, ?_, hwhole⟩
    · rw [map_cons, simplifyFloatings, container, hsimplify]
      cases hsome : first.tree.simplify with
      | none => simpa [keptFloatings, hsome] using hfloatings
      | some tree => simp [keptFloatings, hsome, hfloatings, container]
    · intro entry hentry
      cases hsome : first.tree.simplify with
      | none =>
        rw [keptFloatings, filterMap_cons, hsome] at hentry
        exact hstoredRest entry hentry
      | some tree =>
        rw [keptFloatings, filterMap_cons, hsome] at hentry
        rcases mem_cons.mp hentry with rfl | hlow
        · apply (hkept tree hsome).within hwithinRest
          intro key hkey hmem
          have hids := first.tree.simplify_ids_sublist
          rw [hsome, toList_some, flatMap_singleton] at hids
          exact hdisjoint key (hids.subset hkey) key hmem rfl
        · exact hstoredRest entry hlow

end DockNodes

namespace DockGraph.Holds

variable {self : DockGraph} {forest : DockForest} {space : DockSpaceId} (h : self.Holds forest)

include h

theorem trees_nodup (space : DockSpaceId) : ((forest space).root.toList.flatMap ids).Nodup ∧
      ((forest space).floatings.flatMap fun entry => entry.tree.ids).Nodup ∧
      ∀ key ∈ (forest space).root.toList.flatMap ids,
        key ∉ (forest space).floatings.flatMap fun entry => entry.tree.ids := by
  have hnodup := h.nodup space
  rw [SpaceTrees.ids, SpaceTrees.trees, flatMap_append, flatMap_map, nodup_append] at hnodup
  exact ⟨hnodup.1, hnodup.2.1, fun key hkey hmem => hnodup.2.2 key hkey key hmem rfl⟩

theorem simplifyRoot (space : DockSpaceId) :
    (self.simplifyRoot space).1 = ((forest space).root.bind simplify).map DockTree.id ∧
      (self.simplifyRoot space).2.Holds (Function.update forest space
        { forest space with root := (forest space).root.bind simplify }) := by
  cases hroot : (forest space).root with
  | none =>
    have hself : self.root space = none := by rw [h.root, hroot, map_none]
    rw [DockGraph.simplifyRoot, hself]
    exact ⟨rfl, h.removeRoot space⟩
  | some tree =>
    have hself : self.root space = some tree.id := by rw [h.root, hroot, map_some]
    have hmem : tree ∈ (forest space).trees := by simp [SpaceTrees.trees, hroot]
    have hnodup := h.tree_nodup hmem
    have hstored := h.stored space tree hmem
    obtain ⟨hrootNodup, hfloatingsNodup, hdisjoint⟩ := h.trees_nodup space
    rw [hroot, toList_some, flatMap_singleton] at hdisjoint
    obtain ⟨after, hsimplify, hkept, hwithin⟩ :=
      simplifySubtree_eq hstored hnodup (self.ids_length_le_fuel hstored hnodup)
    have hids := tree.simplify_ids_sublist
    have hroots : ∀ other, other ≠ space →
        (self.simplifyRoot space).2.root other = self.root other := fun other hother =>
      self.simplifyRoot_roots_get_ne space (Ne.symm hother)
    have hfirst : (self.simplifyRoot space).1 = tree.simplify.map DockTree.id := by
      rw [DockGraph.simplifyRoot, hself]
      simp only [hsimplify]
      cases tree.simplify <;> rfl
    have hnodes : (self.simplifyRoot space).2.nodes = after := by
      rw [DockGraph.simplifyRoot, hself]
      simp only [hsimplify]
      cases tree.simplify <;> rfl
    refine ⟨hfirst, ?_⟩
    rw [bind_some]
    apply h.update
    · rw [← hfirst]
      exact self.simplifyRoot_roots_get space
    · exact hroots
    · rw [floatingContainers, simplifyRoot_floatings]
      exact h.floatings space
    · intro other _
      rw [floatingContainers, simplifyRoot_floatings]
      rfl
    · rw [centralRegion, simplifyRoot_centralRegions]
      exact h.central space
    · intro other _
      rw [centralRegion, simplifyRoot_centralRegions]
      rfl
    · intro low hlow
      rw [hnodes]
      rcases mem_append.mp hlow with hnew | hfloating
      · exact hkept low (mem_toList.mp hnew)
      · have hold : low ∈ (forest space).floatings.map FloatingTree.tree := hfloating
        apply (h.stored space low (mem_append_right _ hold)).within hwithin
        intro key hkey hin
        obtain ⟨entry, hentry, rfl⟩ := mem_map.mp hold
        exact hdisjoint key hin (mem_flatMap.mpr ⟨entry, hentry, hkey⟩)
    · intro other hother key hkey
      rw [hnodes]
      apply hwithin.frame
      intro hin
      exact hother (h.apart hkey (mem_flatMap.mpr ⟨tree, hmem, hin⟩))
    · rw [SpaceTrees.ids, SpaceTrees.trees, flatMap_append, flatMap_map]
      exact nodup_append.mpr ⟨hids.nodup hnodup, hfloatingsNodup, fun key hkey value hvalue heq =>
          hdisjoint key (hids.subset hkey) (heq ▸ hvalue)⟩
    · intro other hother key hkey hin
      rw [SpaceTrees.ids, SpaceTrees.trees, flatMap_append, mem_append] at hkey
      apply hother
      apply h.apart hin
      rcases hkey with hkey | hkey
      · exact mem_flatMap.mpr ⟨tree, hmem, hids.subset hkey⟩
      · obtain ⟨low, hlow, hbelow⟩ := mem_flatMap.mp hkey
        exact mem_flatMap.mpr ⟨low, mem_append_right _ hlow, hbelow⟩

theorem setCentralRegion (space : DockSpaceId) (central : DockCentralRegion) :
    (self.setCentralRegion space central).Holds
      (Function.update forest space { forest space with central := some central }) := by
  apply h.update
  · exact h.root space
  · exact fun other _ => rfl
  · exact h.floatings space
  · exact fun other _ => rfl
  · exact (get_insert _ _ _ _).trans (if_pos rfl)
  · intro other hother
    exact (get_insert _ _ _ _).trans (if_neg (Ne.symm hother))
  · exact h.stored space
  · exact fun other _ key _ => rfl
  · exact h.nodup space
  · exact fun other hother key hkey hin => hother (h.apart hin hkey)

theorem simplifyCentral (space : DockSpaceId) (previous simplified : Option DockNodeId) :
    (self.simplifyCentral space previous simplified).Holds
      (Function.update forest space { forest space with
        central := (forest space).central.map fun central =>
          { central with
            node := (reboundCentralNode central.node previous simplified).filter fun node =>
              (forest space).root.any fun tree => tree.ids.contains node } }) := by
  rw [DockGraph.simplifyCentral, h.central]
  cases hcentral : (forest space).central with
  | none =>
    have hsame : Function.update forest space { forest space with central := none } = forest := by
      rw [← hcentral, update_eq_self]
    simp only [Option.map_none, hsame]
    exact h
  | some central =>
    have hcontains : (fun node => self.rootSubtreeContains space node) = fun node =>
        (forest space).root.any fun tree => tree.ids.contains node := by
      funext node
      rw [Bool.eq_iff_iff, h.rootSubtreeContains_iff]
      simp [Option.any_eq_true]
    simp only [hcontains, Option.map_some]
    exact h.setCentralRegion space _

theorem simplifySpaceFloatings (space : DockSpaceId) : (self.simplifySpaceFloatings space).Holds
      (forest.setFloatings space (keptFloatings (forest space).floatings)) := by
  have hcontainers := h.floatings space
  rw [DockGraph.simplifySpaceFloatings]
  cases hfloatings : self.floatings[space]? with
  | none =>
    rw [floatingContainers, hfloatings] at hcontainers
    have hnil : (forest space).floatings = [] := map_eq_nil_iff.mp hcontainers.symm
    have hsame : forest.setFloatings space [] = forest := by
      rw [DockForest.setFloatings, ← hnil]
      exact update_eq_self space forest
    rw [hnil]
    simpa [keptFloatings, hsame] using h
  | some containers =>
    rw [floatingContainers, hfloatings, getD_some] at hcontainers
    obtain ⟨_, hnodup, hdisjoint⟩ := h.trees_nodup space
    have hmem : ∀ entry ∈ (forest space).floatings, entry.tree ∈ (forest space).trees :=
      fun entry hentry => mem_append_right _ (mem_map_of_mem hentry)
    obtain ⟨after, hsimplify, hkept, hwithin⟩ := simplifyFloatings_eq
      (fun entry hentry => h.stored space _ (hmem entry hentry)) hnodup
      (fun entry hentry => self.ids_length_le_fuel (h.stored space _ (hmem entry hentry))
        (h.tree_nodup (hmem entry hentry)))
    have hids : (((keptFloatings (forest space).floatings).flatMap
        fun entry => entry.tree.ids)).Sublist
        ((forest space).floatings.flatMap fun entry => entry.tree.ids) := by
      generalize (forest space).floatings = floatings
      induction floatings with
      | nil => exact List.Sublist.refl _
      | cons first rest ih =>
        have hfirst := first.tree.simplify_ids_sublist
        rw [keptFloatings, filterMap_cons]
        cases hsome : first.tree.simplify with
        | none => exact ih.trans (sublist_append_right _ _)
        | some tree =>
          rw [hsome, toList_some, flatMap_singleton] at hfirst
          exact hfirst.append ih
    simp only [hcontainers, hsimplify]
    apply h.update
    · exact h.root space
    · exact fun other _ => rfl
    · rw [floatingContainers]
      split
      · next hempty =>
        rw [get_erase, if_pos rfl]
        exact (isEmpty_iff.mp hempty).symm
      · rw [get_insert, if_pos rfl, getD_some]
    · intro other hother
      rw [floatingContainers, floatingContainers]
      split
      · rw [get_erase, if_neg (Ne.symm hother)]
      · rw [get_insert, if_neg (Ne.symm hother)]
    · exact h.central space
    · exact fun other _ => rfl
    · intro low hlow
      rcases mem_append.mp hlow with hroot | hfloating
      · have hold : low ∈ (forest space).trees := mem_append_left _ hroot
        apply (h.stored space low hold).within hwithin
        intro key hkey hin
        apply hdisjoint key _ hin
        exact mem_flatMap.mpr ⟨low, hroot, hkey⟩
      · obtain ⟨entry, hentry, rfl⟩ := mem_map.mp hfloating
        exact hkept entry hentry
    · intro other hother key hkey
      apply hwithin.frame
      intro hin
      obtain ⟨entry, hentry, hbelow⟩ := mem_flatMap.mp hin
      exact hother (h.apart hkey (mem_flatMap.mpr ⟨entry.tree, hmem entry hentry, hbelow⟩))
    · have hroot := h.trees_nodup space
      rw [SpaceTrees.ids, SpaceTrees.trees, flatMap_append, flatMap_map]
      exact nodup_append.mpr ⟨hroot.1, hids.nodup hroot.2.1,
        fun key hkey value hvalue heq => hroot.2.2 key hkey (heq ▸ hids.subset hvalue)⟩
    · intro other hother key hkey hin
      rw [SpaceTrees.ids, SpaceTrees.trees, flatMap_append, flatMap_map, mem_append] at hkey
      apply hother
      apply h.apart hin
      rw [SpaceTrees.ids, SpaceTrees.trees, flatMap_append, flatMap_map, mem_append]
      exact hkey.imp_right fun hbelow => hids.subset hbelow

theorem simplifySpaceStructure (space : DockSpaceId) :
    (self.simplifySpaceStructure space).Holds (forest.simplifySpace space) := by
  obtain ⟨hsimplified, hrooted⟩ := h.simplifyRoot space
  have hcentral := hrooted.simplifyCentral space (self.root space) (self.simplifyRoot space).1
  have hall := hcentral.simplifySpaceFloatings space
  simp only [DockForest.setFloatings, update_self, update_idem] at hall
  rw [hsimplified, h.root] at hall
  simp only [DockGraph.simplifySpaceStructure, hsimplified, h.root]
  exact hall

/-- Only nodes without a place are reclaimed. -/
theorem finalizeCheckedMutation (stagingRoots : List DockNodeId) :
    (self.finalizeCheckedMutation stagingRoots).Holds forest := by
  refine h.congr (fun _ => rfl) (fun _ => rfl) (fun _ => rfl) ?_
  intro space key hkey
  obtain ⟨tree, htree, hin⟩ := mem_flatMap.mp hkey
  have htop : tree.id ∈ self.topNodes := by
    rw [mem_topNodes_iff]
    refine ⟨space, ?_⟩
    rw [h.spaceRoots_eq]
    exact mem_map_of_mem htree
  have hreach : key ∈ self.reachableNodeIds := by
    rw [reachableNodeIds, mem_reachableNodeIdsFrom_iff]
    exact ⟨tree.id, htop, (h.stored space tree htree).reaches hin⟩
  rw [DockGraph.finalizeCheckedMutation, pruneNodesNotIn]
  simp only [SlotMap.get_retain]
  rw [if_pos]
  exact contains_iff_mem.mpr (mem_append_left _ hreach)

end DockGraph.Holds

end OpenGpui.Docking
