/-
Planning an edge dock.  Every plan is current, and it docks beside its target.
-/
import OpenGpui.Docking.Conservation

namespace OpenGpui.Docking

open List KeyMap Option SpaceTrees

/-- What the index says about nodes with these ids is so in the graph. -/
structure DockParentIndex.Sound (graph : DockGraph) (ids : List DockNodeId)
    (index : DockParentIndex) : Prop where
  rootFor : ∀ node ∈ index.rootFor, node ∈ ids
  parent : ∀ child node : DockNodeId, index.parent[child]? = some node → node ∈ ids ∧
    (graph.nodes.get node = some (.floating child) ∨ ∃ axis children fractions position,
      graph.nodes.get node = some (.split axis children fractions) ∧
        index.splitChildIndex[child]? = some position ∧ children[position]? = some child)

namespace DockGraph

variable {self : DockGraph} {space : DockSpaceId} {target : DockNodeId} {zone : DropZone}
variable {ids : List DockNodeId} {index : DockParentIndex} {plan : DockEdgeDockPlan}

theorem indexSubtree_sound (hclosed : ∀ node ∈ ids, ∀ child ∈ self.nodes.childrenOf node,
    child ∈ ids) {root node : DockNodeId} {fuel : Nat} (hnode : node ∈ ids)
    (h : index.Sound self ids) : (self.indexSubtree root fuel node index).Sound self ids := by
  induction fuel generalizing node index with
  | zero => exact h
  | succ fuel ih =>
    rw [indexSubtree]
    split
    · exact h
    · have hseen : ∀ other ∈ index.rootFor.insert node root, other ∈ ids := by
        intro other hother
        rcases Std.ExtTreeMap.mem_insert.mp hother with heq | hold
        · rwa [← Std.LawfulEqOrd.eq_of_compare heq]
        · exact h.rootFor other hold
      have hbelow := hclosed node hnode
      rw [DockNodes.childrenOf] at hbelow
      cases hget : self.nodes.get node with
      | none => exact ⟨hseen, h.parent⟩
      | some value =>
        rw [hget] at hbelow
        cases value with
        | tabs items selected => exact ⟨hseen, h.parent⟩
        | floating child =>
          apply ih (hbelow child (by simp [DockNode.children]))
          refine ⟨hseen, fun low high hparent => ?_⟩
          rw [get_insert] at hparent
          split at hparent
          · next heq =>
            cases hparent
            exact ⟨hnode, .inl (heq ▸ hget)⟩
          · exact h.parent low high hparent
        | split axis children fractions =>
          refine foldlRecOn (motive := DockParentIndex.Sound self ids) _ _ ⟨hseen, h.parent⟩
            fun index h entry hentry => ?_
          have hchild := mem_zipIdx_iff_getElem?.mp hentry
          apply ih (hbelow entry.1 (mem_of_getElem? hchild))
          refine ⟨h.rootFor, fun low high hparent => ?_⟩
          rw [get_insert] at hparent ⊢
          split at hparent
          · next heq =>
            cases hparent
            subst heq
            exact ⟨hnode, .inr ⟨axis, children, fractions, entry.2, hget, if_pos rfl, hchild⟩⟩
          · next hne =>
            rw [if_neg hne]
            exact h.parent low high hparent

theorem Holds.buildParentIndex_sound {forest : DockForest} (h : self.Holds forest) :
    (self.buildParentIndex space).Sound self (forest space).ids := by
  refine foldlRecOn (motive := DockParentIndex.Sound self (forest space).ids) _ _
    ⟨by simp [DockParentIndex.default], by simp [DockParentIndex.default]⟩
    fun _ hindex _ hroot => ?_
  refine indexSubtree_sound (fun node hnode child hchild => ?_) ?_ hindex
  · obtain ⟨sub, hsub, rfl⟩ := mem_ids_iff.mp hnode
    simp only [DockNodes.childrenOf, h.get hsub, sub.node_children] at hchild
    obtain ⟨low, hlow, rfl⟩ := mem_map.mp hchild
    obtain ⟨tree, htree, hin⟩ := mem_flatMap.mp hsub
    have hbelow := DockTree.mem_subtrees_of_child hlow low.mem_subtrees_self
    exact mem_ids_iff.mpr
      ⟨low, mem_flatMap.mpr ⟨tree, htree, DockTree.mem_subtrees_trans hin hbelow⟩, rfl⟩
  · rw [h.spaceRoots_eq] at hroot
    obtain ⟨tree, htree, rfl⟩ := mem_map.mp hroot
    exact mem_ids_iff.mpr ⟨tree, tree_mem_subtrees htree, rfl⟩

variable {axis : SplitAxis}

theorem fallback_isValid : DockEdgeDockSizing.fallback.isValid = true := by decide +kernel

/-- An insertion next to a child of a split along the axis of the zone is current. -/
theorem edgeDockPlanIsCurrent_insert {split anchor : DockNodeId} {position : Nat}
    {children : List DockNodeId} {fractions : List Scalar}
    (hroot : (self.rootForNodeInSpace space split).isSome = true)
    (hget : self.nodes.get split = some (.split axis children fractions))
    (haxis : zone.axis = some axis) (hlen : children.length = fractions.length)
    (hanchor : children[position]? = some anchor) (scope : DockEdgeDockSizingScope) :
    self.edgeDockPlanIsCurrent space (.insertIntoSplit split zone anchor position
      (if zone.leads then position else position + 1) .fallback scope) = true := by
  obtain ⟨hlt, _⟩ := List.getElem?_eq_some_iff.mp hanchor
  have hne : children ≠ [] := ne_nil_of_length_pos (by omega)
  have hnone : (self.rootForNodeInSpace space split).isNone = false := by
    simpa [isNone_iff_eq_none, ← isSome_iff_ne_none] using hroot
  cases zone <;> cases haxis <;>
    simp [edgeDockPlanIsCurrent, hget, hnone, DropZone.axis, DropZone.leads, hanchor,
      fallback_isValid, ← hlen, hne, edgeInsertIndexMatchesZone] <;> omega

/-- Whether a plan docks beside the target: along a split that is the target, next to a child
that holds the target in containers only, or around it. -/
def DocksBeside (self : DockGraph) (target : DockNodeId) : DockEdgeDockPlan → Prop
  | .insertIntoSplit split _ _ _ _ _ .wholeSplit => split = target
  | .insertIntoSplit _ _ anchorChild _ _ _ .anchorChild =>
    Relation.ReflTransGen (fun child node => self.nodes.get node = some (.floating child)) target
      anchorChild
  | .wrapTarget wrapped _ _ _ => wrapped = target

theorem edgeDockAncestorPlan_current (haxis : zone.axis = some axis) (h : index.Sound self ids)
    (hids : ∀ node ∈ ids, (self.rootForNodeInSpace space node).isSome = true) {fuel : Nat}
    {cur : DockNodeId} (hcur : Relation.ReflTransGen
      (fun child node => self.nodes.get node = some (.floating child)) target cur)
    (hplan : self.edgeDockAncestorPlan index zone axis fuel cur = some plan) :
    self.edgeDockPlanIsCurrent space plan = true ∧ self.DocksBeside target plan := by
  induction fuel generalizing cur with
  | zero => cases hplan
  | succ fuel ih =>
    rw [edgeDockAncestorPlan] at hplan
    split at hplan
    · cases hplan
    · next node hparent =>
      obtain ⟨hnode, hfloats | ⟨own, children, fractions, position, hget, hposition, hchild⟩⟩ :=
        h.parent cur node hparent
      · simp only [hfloats] at hplan
        exact ih (hcur.tail hfloats) hplan
      · simp only [hget, hposition, bind_eq_bind, bind_some, hchild] at hplan
        split at hplan
        · cases hplan
        · next hfits =>
          simp only [not_or, ne_eq, not_not] at hfits
          cases hplan
          exact ⟨edgeDockPlanIsCurrent_insert (hids node hnode) hget (hfits.1 ▸ haxis) hfits.2.2
            hchild _, hcur⟩

/-- A plan for a valid graph is current, and it docks beside its target. -/
theorem edgeDockPlan_current (hvalid : self.validate = .ok ())
    (hplan : self.edgeDockPlan space target zone = some plan) :
    self.edgeDockPlanIsCurrent space plan = true ∧ self.DocksBeside target plan := by
  obtain ⟨forest, h, _⟩ := validate_ok hvalid
  have hids : ∀ node ∈ (forest space).ids, (self.rootForNodeInSpace space node).isSome = true :=
    fun _ => h.rootForNodeInSpace_isSome_iff.mpr
  have hindex : (self.buildParentIndex space).Sound self (forest space).ids :=
    h.buildParentIndex_sound
  rw [edgeDockPlan] at hplan
  split at hplan
  · cases hplan
  · next axis haxis =>
    simp only at hplan
    split at hplan
    · cases hplan
    · next hfound =>
      have htarget := hindex.rootFor target (by simpa using hfound)
      split at hplan
      · next found hown =>
        cases hplan
        rw [edgeDockTargetPlan] at hown
        split at hown
        · next own children fractions hget =>
          split at hown
          · next hfits =>
            obtain ⟨rfl, hne, hlen⟩ := hfits
            obtain ⟨anchor, hanchor, rfl⟩ := map_eq_some_iff.mp hown
            refine ⟨?_, rfl⟩
            have hcurrent := fun position (hposition : children[position]? = some anchor) =>
              edgeDockPlanIsCurrent_insert (hids _ htarget) hget haxis hlen hposition .wholeSplit
            cases zone with
            | center => cases haxis
            | _ => exact hcurrent _ hanchor
          · cases hown
        · cases hown
      · split at hplan
        · next found habove =>
          cases hplan
          exact edgeDockAncestorPlan_current haxis hindex hids .refl habove
        · cases hplan
          refine ⟨?_, rfl⟩
          simp [edgeDockPlanIsCurrent, haxis, fallback_isValid, hids target htarget]

open ConservationWitness in
theorem edgeDockPlan_current_nested :
    ∃ plan, nestedGraph.edgeDockPlan "main" 1 .bottom = some plan ∧
      nestedGraph.edgeDockPlanIsCurrent "main" plan = true ∧ nestedGraph.DocksBeside 1 plan :=
  (Option.isSome_iff_exists.mp (by decide)).imp fun _ hplan =>
    ⟨hplan, edgeDockPlan_current nestedGraph_valid hplan⟩

end DockGraph

end OpenGpui.Docking
