/-
Simplifying a space of a valid forest leaves a valid forest.
-/
import OpenGpui.Docking.ValidForest

namespace OpenGpui.Docking

open DockTree UiCore Option SpaceTrees Function

namespace DockTree

variable {tree : DockTree}

theorem Settled.sub {sub : DockTree} (h : Settled tree) (hsub : sub ∈ tree.subtrees) :
    Settled sub := by
  induction tree using below_induction with
  | step tree ih =>
    rw [subtrees_eq, List.mem_cons, List.mem_flatMap] at hsub
    rcases hsub with rfl | ⟨child, hchild, hbelow⟩
    · exact h
    · exact ih child hchild (h.of_child hchild) hbelow

theorem fraction_valid_of_nonneg {fraction : Scalar} (h : 0 ≤ fraction) :
    fractionIsInvalid fraction = false := by
  rw [fractionIsInvalid]
  simp [Scalar.isFinite, h]

/-- Of a settled tree validation has to look at the stacks only. -/
theorem Settled.wellFormed (h : Settled tree)
    (htabs : ∀ (id : DockNodeId) (items : List DockItemId) (selected : Option DockItemId),
      DockTree.tabs id items selected ∈ tree.subtrees →
        (DockNode.tabs items selected).WellFormed) : tree.WellFormed := by
  intro sub hsub
  have hsettled := h.sub hsub
  cases hsettled with
  | tabs hne => exact htabs _ _ _ hsub
  | floating hbelow => trivial
  | split htwo hlen hnormal hother hbelow =>
    refine ⟨by simpa using htwo, by simpa using hlen, fun fraction hfraction => ?_⟩
    exact fraction_valid_of_nonneg (hnormal.nonneg fraction hfraction)

/-- A stack below one of the flattened children was below one of the children. -/
theorem subtrees_of_mem_flatten {axis : SplitAxis} {kept : List (DockTree × Scalar)}
    (hkept : ∀ entry ∈ kept, Settled entry.1) {entry : DockTree × Scalar}
    (hentry : entry ∈ flatten axis kept) {sub : DockTree} (hsub : sub ∈ entry.1.subtrees) :
    ∃ parent ∈ kept, sub ∈ parent.1.subtrees := by
  have hmem : entry.1 ∈ (flatten axis kept).map Prod.fst := List.mem_map_of_mem hentry
  rw [flatten_map_fst _ hkept] at hmem
  obtain ⟨parent, hparent, htree⟩ := List.mem_flatMap.mp hmem
  refine ⟨parent, hparent, ?_⟩
  split at htree
  · exact mem_subtrees_of_child htree hsub
  · rw [List.mem_singleton] at htree
    rwa [← htree]

variable {simplified : DockTree}

/-- Simplification makes no stack and changes none. -/
theorem tabs_mem_of_simplify (h : tree.simplify = some simplified)
    {key : DockNodeId} {own : List DockItemId} {selected : Option DockItemId}
    (hsub : tabs key own selected ∈ simplified.subtrees) :
    tabs key own selected ∈ tree.subtrees := by
  induction tree using induction generalizing simplified with
  | tabs id items other =>
    rw [simplify] at h
    split at h
    · cases h
    · cases h
      exact hsub
  | floating id child ih =>
    rw [simplify, map_eq_some_iff] at h
    obtain ⟨below, hbelow, rfl⟩ := h
    rw [subtrees_eq, List.mem_cons, List.mem_flatMap] at hsub
    obtain heq | ⟨low, hlow, hin⟩ := hsub
    · cases heq
    · obtain rfl := List.mem_singleton.mp hlow
      exact mem_subtrees_of_child (List.mem_singleton_self child) (ih hbelow hin)
  | split id axis kids fractions ih =>
    have hkept : ∀ entry ∈ keepShares (kids.map simplify) fractions, Settled entry.1 :=
      kept_settled fractions fun kid _ tree htree => simplify_settled htree
    have hbelow : ∀ entry ∈ keepShares (kids.map simplify) fractions, tabs key own selected ∈
        entry.1.subtrees → tabs key own selected ∈ (split id axis kids fractions).subtrees := by
      intro entry hentry hin
      obtain ⟨kid, hkid, htree⟩ := List.mem_map.mp (mem_of_mem_keepShares hentry)
      exact mem_subtrees_of_child hkid (ih kid hkid htree hin)
    rw [simplify] at h
    rcases settle_cases id axis hkept with
      ⟨_, hnone⟩ | ⟨only, hlist, honly⟩ | ⟨htwo, hsplit⟩
    · rw [hnone] at h
      cases h
    · rw [honly] at h
      cases h
      exact hbelow only (hlist ▸ List.mem_singleton_self only) hsub
    · rw [hsplit] at h
      cases h
      rw [subtrees_eq, List.mem_cons, List.mem_flatMap] at hsub
      obtain heq | ⟨child, hchild, hin⟩ := hsub
      · cases heq
      · obtain ⟨entry, hentry, rfl⟩ := List.mem_map.mp hchild
        obtain ⟨parent, hparent, hmem⟩ := subtrees_of_mem_flatten hkept hentry hin
        exact hbelow parent hparent hmem

theorem WellFormed.simplify (h : tree.WellFormed)
    (hsimplify : tree.simplify = some simplified) : simplified.WellFormed :=
  (simplify_settled hsimplify).wellFormed fun _ _ _ hsub =>
    h _ (tabs_mem_of_simplify hsimplify hsub)

end DockTree

theorem FloatingTree.WellFormed.simplify {entry : FloatingTree} {tree : DockTree}
    (h : entry.WellFormed) (hsimplify : entry.tree.simplify = some tree) :
    FloatingTree.WellFormed { entry with tree := tree } where
  tree := h.tree.simplify hsimplify
  floating := by
    obtain ⟨id, child, htree⟩ := h.floating
    rw [htree, DockTree.simplify, map_eq_some_iff] at hsimplify
    obtain ⟨below, _, rfl⟩ := hsimplify
    exact ⟨id, below, rfl⟩
  bounds := h.bounds

namespace DockForest

variable {forest : DockForest}

/-- A region that is still bound after its space is simplified is bound to a node below
the simplified root. -/
theorem simplifyCentral_node {root : Option DockTree} {central : DockCentralRegion}
    {node : DockNodeId} (h : (simplifyCentral root central).node = some node) :
    ∃ tree, root.bind simplify = some tree ∧ node ∈ tree.ids := by
  simp only [simplifyCentral, filter_eq_some_iff, any_eq_true] at h
  obtain ⟨_, tree, htree, hin⟩ := h
  exact ⟨tree, htree, List.contains_iff_mem.mp hin⟩

theorem Valid.simplifySpace (h : forest.Valid) (space : DockSpaceId) :
    (forest.simplifySpace space).Valid where
  root other tree hroot := by
    rw [DockForest.simplifySpace] at hroot
    by_cases hother : other = space
    · subst hother
      rw [update_self] at hroot
      obtain ⟨original, horiginal, hsimplify⟩ := bind_eq_some_iff.mp hroot
      exact (h.root other original horiginal).simplify hsimplify
    · rw [update_of_ne hother] at hroot
      exact h.root other tree hroot
  floatings other entry hentry := by
    rw [DockForest.simplifySpace] at hentry
    by_cases hother : other = space
    · subst hother
      rw [update_self] at hentry
      obtain ⟨original, horiginal, hsome⟩ := List.mem_filterMap.mp hentry
      obtain ⟨tree, hsimplify, rfl⟩ := map_eq_some_iff.mp hsome
      exact (h.floatings other original horiginal).simplify hsimplify
    · rw [update_of_ne hother] at hentry
      exact h.floatings other entry hentry
  central other central node hcentral hnode := by
    rw [DockForest.simplifySpace] at hcentral ⊢
    by_cases hother : other = space
    · subst hother
      rw [update_self] at hcentral ⊢
      obtain ⟨original, _, rfl⟩ := map_eq_some_iff.mp hcentral
      exact simplifyCentral_node hnode
    · rw [update_of_ne hother] at hcentral ⊢
      exact h.central other central node hcentral hnode
  items := by
    have hitems : ∀ other, (forest.simplifySpace space other).items = (forest other).items := by
      intro other
      rw [DockForest.simplifySpace]
      by_cases hother : other = space
      · subst hother
        rw [update_self, SpaceTrees.simplify_items]
      · rw [update_of_ne hother]
    constructor
    · intro other
      rw [hitems]
      exact h.items.nodup other
    · intro first second item hfirst hsecond
      rw [hitems] at hfirst hsecond
      exact h.items.apart hfirst hsecond

end DockForest

end OpenGpui.Docking
