/-
Canonical graphs.  Every tree of such a graph is one that simplification leaves, and checked
operations keep it so.
-/
import OpenGpui.Docking.Conservation
import OpenGpui.Docking.MergeRefines
import OpenGpui.Library.Machine

namespace OpenGpui.Docking

open List Function DockTree SpaceTrees Option DockGraph

namespace DockTree

/-- Settled, with well-formed stacks. -/
structure Canonical (tree : DockTree) : Prop where
  settled : Settled tree
  wellFormed : tree.WellFormed

theorem Canonical.child {tree child : DockTree} (h : tree.Canonical)
    (hchild : child ∈ tree.children) : child.Canonical :=
  ⟨h.settled.of_child hchild, h.wellFormed.child hchild⟩

variable {tree : DockTree}

/-- A canonical tree stays one when what stands at one node gives way to a canonical tree
that splits along the same axis. -/
theorem Canonical.rewrite (h : tree.Canonical) {key : DockNodeId}
    {f : DockTree → DockTree} (hf : ∀ sub ∈ tree.subtrees, sub.id = key → sub.Canonical →
      (f sub).Canonical ∧ (f sub).splitAxis = sub.splitAxis) :
    (tree.rewrite key f).Canonical ∧ (tree.rewrite key f).splitAxis = tree.splitAxis := by
  induction tree using below_induction with
  | step tree ih =>
    by_cases hid : tree.id = key
    · rw [rewrite_of_id hid]
      exact hf tree (mem_subtrees_self tree) hid h
    have hbelow := fun child hchild => ih child hchild (h.child hchild) fun sub hsub =>
      hf sub (mem_subtrees_of_child hchild hsub)
    have hnode := h.wellFormed _ (mem_subtrees_self _)
    rw [rewrite.eq_def, if_neg hid]
    cases h.settled with
    | tabs hne => exact ⟨h, rfl⟩
    | floating hchild =>
      obtain ⟨hnew, _⟩ := hbelow _ (mem_singleton_self _)
      refine ⟨⟨.floating hnew.settled, .of_children trivial fun low hlow => ?_⟩, rfl⟩
      obtain rfl := mem_singleton.mp hlow
      exact hnew.wellFormed
    | @split id axis kids fractions htwo hlen hnormal hother hkids =>
      have hall : ∀ low ∈ kids.map (DockTree.rewrite key f), low.Canonical ∧
          low.splitAxis ≠ some axis := by
        intro low hlow
        obtain ⟨kid, hkid, rfl⟩ := mem_map.mp hlow
        obtain ⟨hnew, haxis⟩ := hbelow kid hkid
        exact ⟨hnew, haxis ▸ hother kid hkid⟩
      refine ⟨⟨.split ?_ ?_ hnormal (fun low hlow => (hall low hlow).2)
        fun low hlow => (hall low hlow).1.settled, .of_children ?_
        fun low hlow => (hall low hlow).1.wellFormed⟩, rfl⟩
      · rwa [length_map]
      · rwa [length_map]
      · simpa [node, DockNode.WellFormed] using hnode

theorem Canonical.withFractions (h : tree.Canonical) {fractions : List Scalar}
    (hnormal : UiCore.Normalized fractions) (hlen : tree.children.length = fractions.length) :
    (tree.withFractions fractions).Canonical ∧
      (tree.withFractions fractions).splitAxis = tree.splitAxis := by
  cases h.settled with
  | tabs hne | floating hchild => exact ⟨h, rfl⟩
  | @split id axis kids own htwo _ _ hother hkids =>
    refine ⟨⟨.split htwo hlen hnormal hother hkids, .of_children ?_
      fun low hlow => (h.child hlow).wellFormed⟩, rfl⟩
    exact ⟨by rwa [length_map], by rwa [length_map], fun fraction hmem =>
      fraction_valid_of_nonneg (hnormal.nonneg fraction hmem)⟩

end DockTree

namespace DockForest

variable {forest after taken : DockForest} {space other : DockSpaceId} {items : List DockItemId}

/-- The trees of the space are those that simplification leaves. -/
def SettledAt (forest : DockForest) (space : DockSpaceId) : Prop :=
  ∀ tree ∈ (forest space).trees, Settled tree

/-- Valid, with settled trees in every space. -/
structure Canonical (forest : DockForest) : Prop where
  valid : forest.Valid
  settled : ∀ space, forest.SettledAt space

theorem Detach.of_ne (h : forest.Detach space items taken) (hproper : forest.Proper)
    (hne : other ≠ space) : taken other = forest other := by
  cases h with
  | item _ hsub _ | tabs hsub _ =>
    exact hproper.rewrite_of_ne (mem_ids_iff.mpr ⟨_, hsub, rfl⟩) _ hne
  | root _ | floating _ => exact update_of_ne hne _ _

theorem Attach.of_ne {payload : DockTree} (h : forest.Attach space payload after)
    (hproper : forest.Proper) (hne : other ≠ space) : after other = forest other := by
  cases h with
  | merge _ hsub _ => exact hproper.rewrite_of_ne (mem_ids_iff.mpr ⟨_, hsub, rfl⟩) _ hne
  | dock _ hsub hid _ =>
    exact hproper.rewrite_of_ne (mem_ids_iff.mpr ⟨_, hsub, hid⟩) _ hne
  | root _ | float _ _ => exact update_of_ne hne _ _

theorem Canonical.tree (h : forest.Canonical) {tree : DockTree}
    (htree : tree ∈ (forest space).trees) : tree.Canonical := by
  refine ⟨h.settled space tree htree, ?_⟩
  rcases mem_append.mp htree with hroot | hfloating
  · exact h.valid.root space tree (mem_toList.mp hroot)
  · obtain ⟨entry, hentry, rfl⟩ := mem_map.mp hfloating
    exact (h.valid.floatings space entry hentry).tree

theorem SettledAt.congr (h : forest.SettledAt space) (heq : after space = forest space) :
    after.SettledAt space := by
  rwa [SettledAt, heq]

theorem settledAt_update {trees : SpaceTrees} (h : space ≠ other → forest.SettledAt space)
    (htrees : ∀ tree ∈ trees.trees, Settled tree) :
    SettledAt (update forest other trees) space := by
  by_cases hspace : space = other
  · rwa [SettledAt, hspace, update_self]
  · exact (h hspace).congr (update_of_ne hspace _ _)

theorem Canonical.settledAt_setFloatings (h : forest.Canonical) {floatings : List FloatingTree}
    (hperm : (floatings.map FloatingTree.tree).Perm
      ((forest other).floatings.map FloatingTree.tree)) (space : DockSpaceId) :
    (forest.setFloatings other floatings).SettledAt space :=
  settledAt_update (fun _ => h.settled space) fun tree htree =>
    h.settled other tree ((hperm.append_left _).mem_iff.mp htree)

theorem settledAt_simplifySpaces {spaces : List DockSpaceId}
    (h : forest.SettledAt space ∨ space ∈ spaces) :
    (forest.simplifySpaces spaces).SettledAt space := by
  induction spaces generalizing forest with
  | nil => exact h.resolve_right not_mem_nil
  | cons first rest ih =>
    apply ih
    rw [mem_cons, or_left_comm] at h
    refine (or_assoc.mpr h).imp_left fun hfirst => settledAt_update hfirst.resolve_left ?_
    intro tree htree
    rw [simplify_trees, mem_filterMap] at htree
    obtain ⟨original, _, hsimplify⟩ := htree
    exact simplify_settled hsimplify

theorem canonical_rewrite {key : DockNodeId} {f : DockTree → DockTree}
    (h : ∀ space, ∀ tree ∈ (forest space).trees, tree.Canonical)
    (hf : ∀ space, ∀ sub ∈ (forest space).subtrees, sub.id = key → sub.Canonical →
      (f sub).Canonical ∧ (f sub).splitAxis = sub.splitAxis) :
    ∀ space, ∀ tree ∈ (forest.rewrite key f space).trees, tree.Canonical := by
  intro space tree htree
  rw [rewrite, rewrite_trees] at htree
  obtain ⟨original, horiginal, rfl⟩ := mem_map.mp htree
  exact ((h space original horiginal).rewrite fun sub hsub =>
    hf space sub (mem_flatMap.mpr ⟨original, horiginal, hsub⟩)).1

theorem Resizes.canonical (hresizes : forest.Resizes after)
    (h : ∀ space, ∀ tree ∈ (forest space).trees, tree.Canonical) :
    ∀ space, ∀ tree ∈ (after space).trees, tree.Canonical := by
  induction hresizes with
  | refl forest => exact h
  | change hnormal hlen hrest ih =>
    exact ih (canonical_rewrite h fun space sub hsub hid hcanonical =>
      hcanonical.withFractions hnormal (hlen space sub hsub hid))

variable {item : DockItemId} {tabs : DockNodeId}

/-- Filling a stack leaves the trees canonical. -/
theorem canonical_setTabs (h : ∀ space, ∀ tree ∈ (forest space).trees, tree.Canonical)
    (hitem : item ∈ items) (hstacks : ∀ space, ∀ sub ∈ (forest space).subtrees, sub.id = tabs →
      ∃ own selected, sub = .tabs tabs own selected) :
    ∀ space, ∀ tree ∈ (forest.setTabs tabs items (some item) space).trees, tree.Canonical := by
  have hne : items ≠ [] := ne_nil_of_mem hitem
  refine canonical_rewrite h fun space sub hsub hid _ =>
    ⟨⟨.tabs hne, .of_children ⟨hne, item, hitem, rfl⟩ (forall_mem_nil _)⟩, ?_⟩
  obtain ⟨own, selected, rfl⟩ := hstacks space sub hsub hid
  rfl

/-- Showing another item of a stack keeps the forest canonical. -/
theorem Canonical.selectTab (h : forest.Canonical)
    (hproper : forest.Proper) (hstep : forest.Step (.selectTab tabs item) after) :
    after.Canonical := by
  have hleaves := hstep.leaves_of_selectTab hproper
  cases hstep with
  | move early late hop | resize hop => cases hop
  | @selectTab _ items _ hitem hstacks =>
    have htrees := canonical_setTabs (fun _ _ => h.tree) hitem fun space sub hsub hid =>
      ⟨items, hstacks space sub hsub hid⟩
    refine ⟨⟨?_, ?_, ?_, h.valid.items.of_leaves_eq hleaves⟩,
      fun space tree htree => (htrees space tree htree).settled⟩
    · intro space tree htree
      exact (htrees space tree (mem_append_left _ (mem_toList.mpr htree))).wellFormed
    · intro space entry hentry
      have htree := htrees space entry.tree (mem_append_right _ (mem_map_of_mem hentry))
      obtain ⟨original, horiginal, rfl⟩ := mem_map.mp hentry
      have hwell := h.valid.floatings space original horiginal
      refine ⟨htree.wellFormed, ?_, hwell.bounds⟩
      obtain ⟨id, child, hfloating⟩ := hwell.floating
      have hsub : original.tree ∈ (forest space).subtrees :=
        DockGraph.Holds.tree_mem_subtrees (mem_append_right _ (mem_map_of_mem horiginal))
      rw [hfloating] at hsub ⊢
      rw [DockTree.rewrite.eq_def, if_neg]
      · exact ⟨_, _, rfl⟩
      · intro hid
        obtain ⟨selected, heq⟩ := hstacks space _ hsub hid
        cases heq
    · intro space central node hcentral hnode
      obtain ⟨root, hroot, hin⟩ := h.valid.central space central node hcentral hnode
      refine ⟨_, congrArg (Option.map _) hroot, ?_⟩
      have hmem := mem_append_left ((forest space).floatings.map FloatingTree.tree)
        (mem_toList.mpr hroot)
      have halone : (SpaceTrees.ids ⟨some root, [], none⟩) = root.ids := flatMap_singleton _ _
      have hids : (SpaceTrees.rewrite ⟨some root, [], none⟩ tabs
          fun _ => .tabs tabs items item).ids = root.ids := by
        rw [← halone]
        apply ids_rewrite_of_eq (halone ▸ (nodup_flatMap.mp (hproper.nodup space)).1 root hmem)
        intro sub hsub hid
        obtain ⟨selected, rfl⟩ := hstacks space sub (mem_flatMap.mpr ⟨root, hmem, by
          simpa [SpaceTrees.subtrees, SpaceTrees.trees] using hsub⟩) hid
        simp
      rw [← hids] at hin
      simpa [SpaceTrees.ids, SpaceTrees.trees, SpaceTrees.rewrite, SpaceTrees.mapTrees] using hin

/-- No other step but an opening unsettles a space. -/
theorem Step.settled {op : DockOp} (hstep : forest.Step op after) (h : forest.Canonical)
    (hproper : forest.Proper) (space : DockSpaceId)
    (hopens : ¬∃ space tabs item index, op = .openItem space tabs item index) :
    after.SettledAt space := by
  cases hstep with
  | selectTab hitem hstacks =>
    exact (h.selectTab hproper (.selectTab hitem hstacks)).settled space
  | @closeItem closed item taken hdetach =>
    show (taken.simplifySpaces [closed]).SettledAt space
    apply settledAt_simplifySpaces
    by_cases hspace : space = closed
    · exact .inr (mem_singleton.mpr hspace)
    · exact .inl ((h.settled space).congr (hdetach.of_ne hproper hspace))
  | openItem => exact absurd ⟨_, _, _, _, rfl⟩ hopens
  | @move _ source target items payload taken put early late hop hdetach hpayload hattach htarget
      hsource =>
    apply settledAt_simplifySpaces
    by_cases hlate : space ∈ late
    · exact .inr hlate
    · left
      have hne : space ≠ target := fun heq => hlate (heq ▸ htarget)
      have hput := hattach.of_ne ((hdetach.proper hproper).simplifySpaces early) hne
      refine SettledAt.congr (settledAt_simplifySpaces ?_) hput
      by_cases hspace : space = source
      · subst hspace
        exact .inr ((mem_append.mp hsource).resolve_right hlate)
      · exact .inl ((h.settled space).congr (hdetach.of_ne hproper hspace))
  | setFloatingBounds hentry =>
    exact h.settledAt_setFloatings (Perm.of_eq (FloatingTree.map_tree_set hentry _)) space
  | raiseFloating =>
    exact h.settledAt_setFloatings ((moveToEnd_perm _ _).map _) space
  | resize hop hresizes =>
    exact fun tree htree => (hresizes.canonical (fun _ _ => h.tree) space tree htree).settled

theorem Canonical.settledAt_placeRoot (h : forest.Canonical) {tree : DockTree}
    (hsettled : Settled tree) (space : DockSpaceId) :
    (forest.placeRoot other tree).SettledAt space := by
  refine settledAt_update (fun _ => h.settled space) fun low hlow => ?_
  rcases mem_cons.mp hlow with rfl | hfloating
  · exact hsettled
  · exact h.settled other low (mem_append_right _ hfloating)

end DockForest

namespace DockGraph

variable {self after : DockGraph} {op : DockOp}

/-- Validation accepts the graphs that hold a valid forest, which is then the only one. -/
theorem validate_ok_iff_existsUnique :
    self.validate = .ok () ↔ ∃! forest, self.Holds forest ∧ forest.Valid := by
  rw [validate_ok_iff]
  constructor
  · rintro ⟨forest, h, hvalid⟩
    exact ⟨forest, ⟨h, hvalid⟩, fun other hother => hother.1.unique h⟩
  · exact ExistsUnique.exists

/-- The graph holds a canonical forest. -/
def Canonical (self : DockGraph) : Prop := ∃ forest, self.Holds forest ∧ forest.Canonical

theorem Canonical.applyOpChecked {changed : Bool} (h : self.Canonical)
    (hop : self.applyOpChecked op = .ok (changed, after)) : after.Canonical := by
  obtain ⟨forest, hholds, hforest⟩ := h
  by_cases hopens : ∃ space tabs item index, op = .openItem space tabs item index
  · obtain ⟨space, tabs, item, index, rfl⟩ := hopens
    obtain ⟨_, ⟨_, _, hselects, _⟩ | ⟨_, rfl, _⟩ | ⟨_, _, hcommits⟩⟩ := applyOpChecked_ok hop
    · cases hselects
    · exact ⟨forest, hholds, hforest⟩
    · obtain ⟨next, happly, rfl⟩ := hcommits.applied
      obtain ⟨_, last, hlast, hcase⟩ := openItem_places hholds happly
      have hafter := hlast.finalizeCheckedMutation self.captureMutationRetention
      refine ⟨last, hafter, hafter.valid_iff.mp hcommits.valid, fun other => ?_⟩
      rcases hcase with ⟨tabs, own, merged, selected, hsub, hmerged, rfl⟩ | ⟨tabs, hroot, rfl⟩
      · intro tree htree
        have hitem : item ∈ merged := hmerged.mem_iff.mpr (by simp)
        exact (DockForest.canonical_setTabs (fun _ _ => hforest.tree) hitem
          (fun _ sub hother hid => ⟨own, selected, (hholds.sub_unique hother hsub hid).2⟩)
          other tree htree).settled
      · exact hforest.settledAt_placeRoot (.tabs (by simp)) other
  · obtain ⟨rfl, _⟩ | ⟨last, hstep, hlast, hcase⟩ := applyOpChecked_forest hholds hforest.valid hop
    · exact ⟨forest, hholds, hforest⟩
    · refine ⟨last, hlast, ?_⟩
      rcases hcase with ⟨tabs, item, rfl⟩ | hvalid
      · exact hforest.selectTab hholds.proper hstep
      · exact ⟨hlast.valid_iff.mp hvalid, fun space =>
          hstep.settled hforest hholds.proper space hopens⟩

/-- Checked operations one after the other, while they succeed. -/
def checkedOps : Machine DockGraph DockOp Bool := ⟨fun self op => (self.applyOpChecked op).toOption⟩

/-- Checked operations keep a canonical graph canonical. -/
theorem checkedOps_canonical {ops : List DockOp} (h : self.Canonical)
    (hrun : checkedOps.run self ops = some after) : after.Canonical := by
  refine Machine.invariant_of_run (fun self op changed next hself hstep => ?_) h hrun
  cases hop : self.applyOpChecked op with
  | error error => simp [checkedOps, hop, Except.toOption] at hstep
  | ok result =>
    obtain rfl : result = (changed, next) := by simpa [checkedOps, hop, Except.toOption] using hstep
    exact hself.applyOpChecked hop

theorem new_canonical : new.Canonical := by
  have hvalid : new.validate = .ok () := by decide
  obtain ⟨forest, hholds, hforest⟩ := validate_ok hvalid
  exact ⟨forest, hholds, hforest, fun _ _ htree => absurd (hholds.mem_spaces htree) not_mem_nil⟩

theorem checkedOps_canonical_docks :
    ∃ after, checkedOps.run .new [.openItem "main" none "a" none, .openItem "side" none "b" none,
        .moveItem "side" "b" "main" (.edge (.wrapTarget 0 .horizontal .left .fallback))] =
      some after ∧ after.Canonical :=
  (isSome_iff_exists.mp (by decide +kernel)).imp fun _ hrun =>
    ⟨hrun, checkedOps_canonical new_canonical hrun⟩

theorem Holds.simplifySpaces {forest : DockForest} (h : self.Holds forest) (hvalid : forest.Valid)
    (spaces : List DockSpaceId) :
    (spaces.foldl DockGraph.simplifySpaceStructure self).Holds (forest.simplifySpaces spaces) ∧
      (forest.simplifySpaces spaces).Valid ∧
      ∀ space, (forest.simplifySpaces spaces space).items = (forest space).items := by
  induction spaces generalizing self forest with
  | nil => exact ⟨h, hvalid, fun _ => rfl⟩
  | cons first rest ih =>
    obtain ⟨hholds, hrest, hitems⟩ :=
      ih (h.simplifySpaceStructure first) (hvalid.simplifySpace first)
    refine ⟨hholds, hrest, fun space => (hitems space).trans ?_⟩
    by_cases hspace : space = first
    · rw [hspace, DockForest.simplifySpace, update_self, SpaceTrees.simplify_items]
    · exact congrArg _ (update_of_ne hspace _ _)

/-- Canonicalizing makes every valid graph canonical and keeps the items of its spaces in
order. -/
theorem canonicalize_canonical (hvalid : self.validate = .ok ()) :
    self.canonicalize.Canonical ∧ ∀ space,
      self.canonicalize.collectItemsInSpace space = self.collectItemsInSpace space := by
  obtain ⟨forest, h, hforest⟩ := validate_ok hvalid
  obtain ⟨hsimple, hlast, hitems⟩ := h.simplifySpaces hforest self.spaces
  have hpruned := hsimple.finalizeCheckedMutation []
  have hnone : reachableNodeIdsFrom (self.spaces.foldl simplifySpaceStructure self) [] = [] := by
    simp [eq_nil_iff_forall_not_mem, mem_reachableNodeIdsFrom_iff]
  rw [finalizeCheckedMutation, filter_nil, hnone, append_nil] at hpruned
  have hholds : self.canonicalize.Holds (forest.simplifySpaces self.spaces) := hpruned
  refine ⟨⟨_, hholds, hlast, fun space => DockForest.settledAt_simplifySpaces ?_⟩, fun space => ?_⟩
  · by_cases hspace : space ∈ self.spaces
    · exact .inr hspace
    · exact .inl fun tree htree => absurd (h.mem_spaces htree) hspace
  · rw [hholds.collectItemsInSpace_eq, h.collectItemsInSpace_eq, hitems]

theorem canonicalize_canonical_nested : ConservationWitness.nestedGraph.canonicalize.Canonical :=
  (canonicalize_canonical ConservationWitness.nestedGraph_valid).1

end DockGraph

end OpenGpui.Docking
