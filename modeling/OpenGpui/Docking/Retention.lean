/-
Staged trees beside the attached ones: every checked operation keeps them, loses nothing a
space refers to, and reclaims what neither refers to.
-/
import OpenGpui.Docking.StagedOps
import OpenGpui.Docking.Conservation

namespace OpenGpui

open Checked Option SlotMap List

namespace Worklist.Reaches

universe u

variable {V : Type u} {succ succ' : V → List V} {source target : V} {P : V → Prop}

/-- A property that successors inherit holds all along a path. -/
theorem inherits (h : Reaches succ source target)
    (hclosed : ∀ vertex, P vertex → ∀ next ∈ succ vertex, P next) (hsource : P source) :
    P target := by
  induction h with
  | refl => exact hsource
  | tail _ hstep ih => exact hclosed _ ih _ hstep

/-- Where the successors agree on what a path meets, the path is one of both. -/
theorem congr_on (h : Reaches succ source target)
    (hclosed : ∀ vertex, P vertex → ∀ next ∈ succ vertex, P next)
    (hsame : ∀ vertex, P vertex → succ' vertex = succ vertex) (hsource : P source) :
    Reaches succ' source target := by
  induction h with
  | refl => exact Reaches.refl _
  | tail hbelow hstep ih =>
    have hmiddle := inherits hbelow hclosed hsource
    exact Relation.ReflTransGen.tail ih (by rwa [hsame _ hmiddle])

end Worklist.Reaches

namespace Docking

open Worklist

/-- What a node holds, apart from the shares of its children and its selection. -/
def DockNode.contents : DockNode → DockNode
  | .split axis children _ => .split axis children []
  | .tabs items _ => .tabs items none
  | .floating child => .floating child

@[simp] theorem DockNode.children_contents (node : DockNode) :
    node.contents.children = node.children := by
  cases node <;> rfl

/-- The nodes whose selection or shares an operation names. -/
def DockOp.edits (op : DockOp) (key : DockNodeId) : Prop :=
  match op with
  | .selectTab tabs _ => key = tabs
  | .setSplitFractions split _ => key = split
  | .setSplitFractionsMany updates => ∃ update ∈ updates, update.split = key
  | _ => False

namespace DockGraph

variable {self next after : DockGraph} {op : DockOp} {key : DockNodeId} (graph : DockGraph)

/-- A node below the root or a floating container of a space. -/
def Attached (key : DockNodeId) : Prop :=
  ∃ space, ∃ top ∈ graph.spaceRoots space, Reaches graph.nodes.childrenOf top key

/-- A stored node that no space refers to. -/
def Staged (key : DockNodeId) : Prop :=
  (∃ node, graph.nodes.get key = some node) ∧ ¬ graph.Attached key

/-- A staged node that no staged node refers to. -/
structure StagedRoot (graph : DockGraph) (root : DockNodeId) : Prop where
  staged : graph.Staged root
  top : ∀ other : DockNodeId, graph.Staged other → root ∉ graph.nodes.childrenOf other

theorem mem_reachableNodeIds_iff : key ∈ self.reachableNodeIds ↔ self.Attached key := by
  rw [reachableNodeIds, mem_reachableNodeIdsFrom_iff]
  simp only [mem_topNodes_iff, Attached]
  constructor
  · rintro ⟨top, ⟨space, htop⟩, hreach⟩
    exact ⟨space, top, htop, hreach⟩
  · rintro ⟨space, top, htop, hreach⟩
    exact ⟨top, ⟨space, htop⟩, hreach⟩

/-- The retention holds the staged roots. -/
theorem mem_captureMutationRetention_iff :
    key ∈ self.captureMutationRetention ↔ self.StagedRoot key := by
  have hstaging : ∀ node, node ∈ (self.nodes.keys.filter fun node =>
      !self.reachableNodeIds.contains node) ↔ self.Staged node := by
    intro node
    rw [mem_filter, mem_keys_iff, Bool.not_eq_true', ← Bool.not_eq_true,
      contains_iff_mem, mem_reachableNodeIds_iff, Staged]
  rw [captureMutationRetention]
  simp only [mem_filter, mem_flatMap, Bool.not_eq_true', ← Bool.not_eq_true,
    contains_iff_mem, hstaging]
  constructor
  · rintro ⟨hkey, hnot⟩
    exact ⟨hkey, fun other hother hchild => hnot ⟨⟨other, hother, hchild⟩, hkey⟩⟩
  · rintro ⟨hkey, htop⟩
    exact ⟨hkey, fun ⟨⟨other, hother, hchild⟩, _⟩ => htop other hother hchild⟩

theorem Attached.child (h : self.Attached key) {child : DockNodeId}
    (hchild : child ∈ self.nodes.childrenOf key) : self.Attached child := by
  obtain ⟨space, top, htop, hreach⟩ := h
  exact ⟨space, top, htop, Relation.ReflTransGen.tail hreach hchild⟩

/-- Below a staged node the stored nodes that are not attached are staged. -/
theorem fenced_self (self : DockGraph) : Fenced self.nodes self.Staged self where
  nodes :=
    { same := fun _ _ => rfl
      stored := fun key node hget => ⟨node, hget⟩
      known := fun key hkey => by
        obtain ⟨⟨node, hget⟩, -⟩ := hkey
        exact get_lt_next hget
      closed := by
        intro key hkey child hchild hstaged
        have hstored : ∃ node, self.nodes.get key = some node := by
          rw [DockNodes.childrenOf] at hchild
          split at hchild
          · next node hget => exact ⟨node, hget⟩
          · cases hchild
        have hattached : self.Attached key := by
          by_contra hnot
          exact hkey ⟨hstored, hnot⟩
        exact hstaged.2 (hattached.child hchild) }
  roots space root hroot hstaged :=
    hstaged.2 ⟨space, root, mem_append_left _ (mem_toList.mpr hroot), Reaches.refl _⟩
  floatings space container hcontainer hstaged :=
    hstaged.2 ⟨space, container.node, mem_append_right _ (mem_map_of_mem hcontainer),
      Reaches.refl _⟩

/-- What a mutation leaves of the staged nodes of the graph before it. -/
structure KeepsStaged (before : DockGraph) (op : DockOp) (after : DockGraph) : Prop where
  same : ∀ key : DockNodeId, before.Staged key → ∃ node later,
    before.nodes.get key = some node ∧ after.nodes.get key = some later ∧
      later.contents = node.contents ∧ (¬ op.edits key → later = node)
  apart : ∀ key : DockNodeId, before.Staged key → ¬ after.Attached key
  stored : ∀ (key : DockNodeId) (node : DockNode), before.nodes.get key = some node →
    ∃ later, after.nodes.get key = some later

theorem Fenced.attached {original : DockNodes} {staged : DockNodeId → Prop}
    (h : Fenced original staged self) (hkey : self.Attached key) : ¬ staged key := by
  obtain ⟨space, top, htop, hreach⟩ := hkey
  exact hreach.inherits (fun vertex hvertex => h.nodes.closed vertex hvertex) (h.tops top htop)

theorem Fenced.keepsStaged (h : Fenced self.nodes self.Staged next) : self.KeepsStaged op next where
  same key hkey := by
    obtain ⟨node, hget⟩ := hkey.1
    exact ⟨node, node, hget, by rw [h.nodes.same key hkey, hget], rfl, fun _ => rfl⟩
  apart key hkey hattached := h.attached hattached hkey
  stored := h.nodes.stored

/-- A later graph differs in the shares and selections of the edited nodes only. -/
structure SameContents (edited : DockNodeId → Prop) (before after : DockGraph) : Prop where
  contents : ∀ key : DockNodeId,
    (after.nodes.get key).map DockNode.contents = (before.nodes.get key).map DockNode.contents
  others : ∀ key : DockNodeId, ¬ edited key → after.nodes.get key = before.nodes.get key
  tops : ∀ space : DockSpaceId, after.spaceRoots space = before.spaceRoots space

namespace SameContents

variable {edited : DockNodeId → Prop} {before middle : DockGraph}

theorem refl (edited : DockNodeId → Prop) (self : DockGraph) : SameContents edited self self :=
  ⟨fun _ => rfl, fun _ _ => rfl, fun _ => rfl⟩

theorem trans (h : SameContents edited before middle) (h' : SameContents edited middle after) :
    SameContents edited before after :=
  ⟨fun key => (h'.contents key).trans (h.contents key),
    fun key hkey => (h'.others key hkey).trans (h.others key hkey),
    fun space => (h'.tops space).trans (h.tops space)⟩

theorem setNode {node old : DockNode} (hget : self.nodes.get key = some old)
    (hcontents : node.contents = old.contents) (hedited : edited key) :
    SameContents edited self (self.setNode key node) where
  contents other := by
    rw [setNode_nodes]
    by_cases heq : key = other
    · subst heq
      rw [get_set_self _ hget, hget, map_some, map_some, hcontents]
    · rw [get_set_ne _ _ heq]
  others other hother := by
    have hne : key ≠ other := by
      rintro rfl
      exact hother hedited
    rw [setNode_nodes, get_set_ne _ _ hne]
  tops _ := rfl

theorem childrenOf (h : SameContents edited before after) (key : DockNodeId) :
    after.nodes.childrenOf key = before.nodes.childrenOf key := by
  have hcontents := h.contents key
  rw [DockNodes.childrenOf, DockNodes.childrenOf]
  cases hbefore : before.nodes.get key with
  | none =>
    rw [hbefore, map_none, map_eq_none_iff] at hcontents
    rw [hcontents]
  | some node =>
    rw [hbefore] at hcontents
    obtain ⟨later, hlater, heq⟩ := map_eq_some_iff.mp hcontents
    rw [hlater]
    dsimp only
    rw [← later.children_contents, heq, node.children_contents]

theorem attached_iff (h : SameContents edited before after) :
    after.Attached key ↔ before.Attached key := by
  rw [Attached, Attached]
  simp only [h.tops, funext h.childrenOf]

theorem keepsStaged (h : SameContents op.edits self next) : self.KeepsStaged op next where
  same key hkey := by
    obtain ⟨node, hget⟩ := hkey.1
    have hcontents := h.contents key
    rw [hget] at hcontents
    obtain ⟨later, hlater, heq⟩ := map_eq_some_iff.mp hcontents
    refine ⟨node, later, hget, hlater, heq, fun hother => ?_⟩
    rw [h.others key hother, hget] at hlater
    exact (some.inj hlater).symm
  apart key hkey hattached := hkey.2 (h.attached_iff.mp hattached)
  stored key node hget := by
    have hcontents := h.contents key
    rw [hget] at hcontents
    obtain ⟨later, hlater, -⟩ := map_eq_some_iff.mp hcontents
    exact ⟨later, hlater⟩

end SameContents

theorem selectTab_sameContents {tabs : DockNodeId} {item : DockItemId} {changed : Bool}
    (hop : self.selectTab tabs item = (changed, next)) :
    SameContents (DockOp.selectTab tabs item).edits self next := by
  rw [selectTab] at hop
  split at hop
  · next items selected hget =>
    split at hop
    · cases hop
      exact .refl _ _
    · cases hop
      have hset : SameContents (DockOp.selectTab tabs item).edits (self.recordTabSelection tabs
          item) ((self.recordTabSelection tabs item).setNode tabs (.tabs items (some item))) :=
        .setNode hget rfl rfl
      exact ⟨hset.contents, hset.others, hset.tops⟩
  · cases hop
    exact .refl _ _

theorem updateSplitFractions_sameContents (self : DockGraph) {edited : DockNodeId → Prop}
    {split : DockNodeId} (hedited : edited split) (fractions : List Scalar) :
    SameContents edited self (self.updateSplitFractions split fractions).2 := by
  rw [updateSplitFractions]
  split
  · next hget =>
    split
    · exact .refl _ _
    · dsimp only
      split
      · exact .refl _ _
      · exact .setNode hget rfl hedited
  · exact .refl _ _

theorem applySplitFractionUpdates_sameContents (self : DockGraph) {edited : DockNodeId → Prop}
    {updates : List DockSplitResize} (hedited : ∀ update ∈ updates, edited update.split) :
    SameContents edited self (self.applySplitFractionUpdates updates).2 := by
  induction updates generalizing self with
  | nil => exact .refl _ _
  | cons update rest ih =>
    exact (updateSplitFractions_sameContents self (hedited update mem_cons_self) _).trans
      (ih _ fun other hother => hedited other (mem_cons_of_mem _ hother))

/-- Every validated operation that reports a change keeps the staged nodes. -/
theorem applyOpUnchecked_keepsStaged (hvalidate : self.validateOp op = .ok ())
    (hop : self.applyOpUnchecked op = (true, next)) : self.KeepsStaged op next := by
  cases op with
  | selectTab tabs item => exact (selectTab_sameContents hop).keepsStaged
  | closeItem space item => exact (self.fenced_self.closeItem hop).keepsStaged
  | openItem space targetTabs item insertIndex => exact (self.fenced_self.openItem hop).keepsStaged
  | moveItem source item target dropTarget =>
    simp only [validateOp, validateMoveItem, guard_eq_ok] at hvalidate
    exact (self.fenced_self.moveItem hvalidate.2.2 hop).keepsStaged
  | moveTabs source tabs target dropTarget =>
    simp only [validateOp, validateMoveTabs, guard_eq_ok, bind_eq_ok] at hvalidate
    obtain ⟨-, _, -, _, -, htarget⟩ := hvalidate
    exact (self.fenced_self.moveTabs htarget hop).keepsStaged
  | moveFloating source floating target dropTarget =>
    have htarget : self.validateGraphDropTarget target dropTarget = .ok () := by
      simp only [validateOp, validateMoveFloating, guard_eq_ok] at hvalidate
      obtain ⟨-, hrest⟩ := hvalidate
      split at hrest
      · cases hrest
      · simp only [guard_eq_ok, bind_eq_ok] at hrest
        exact hrest.2.choose_spec.1
    exact (self.fenced_self.moveFloating htarget hop).keepsStaged
  | floatItemInWindow source item target bounds =>
    exact (self.fenced_self.floatItem hop).keepsStaged
  | floatTabsInWindow source tabs target bounds =>
    exact (self.fenced_self.floatTabs hop).keepsStaged
  | setFloatingBounds space floating bounds =>
    exact (self.fenced_self.setFloatingBounds hop).keepsStaged
  | raiseFloating space floating => exact (self.fenced_self.raiseFloating hop).keepsStaged
  | setSplitFractions split fractions =>
    have hedited : (DockOp.setSplitFractions split fractions).edits split := rfl
    have hsame := updateSplitFractions_sameContents self hedited fractions
    rw [applyOpUnchecked] at hop
    rw [hop] at hsame
    exact hsame.keepsStaged
  | setSplitFractionsMany updates =>
    have hsame : SameContents (DockOp.setSplitFractionsMany updates).edits self
        (self.applySplitFractionUpdates updates).2 :=
      applySplitFractionUpdates_sameContents self fun update hupdate => ⟨update, hupdate, rfl⟩
    rw [applyOpUnchecked] at hop
    rw [hop] at hsame
    exact hsame.keepsStaged

section Sweep

variable {retention : List DockNodeId}

/-- What the sweep keeps: attached nodes, and those below a retained root that is stored. -/
def Retains (graph : DockGraph) (retention : List DockNodeId) (key : DockNodeId) : Prop :=
  graph.Attached key ∨ ∃ root ∈ retention, (∃ node, graph.nodes.get root = some node) ∧
    Reaches graph.nodes.childrenOf root key

theorem Retains.child (h : self.Retains retention key) {child : DockNodeId}
    (hchild : child ∈ self.nodes.childrenOf key) : self.Retains retention child := by
  rcases h with hattached | ⟨root, hroot, hstored, hreach⟩
  · exact .inl (hattached.child hchild)
  · exact .inr ⟨root, hroot, hstored, Relation.ReflTransGen.tail hreach hchild⟩

theorem finalizeCheckedMutation_get_iff {node : DockNode} :
    (self.finalizeCheckedMutation retention).nodes.get key = some node ↔
      self.nodes.get key = some node ∧ self.Retains retention key := by
  have hkept : (self.reachableNodeIds ++ self.reachableNodeIdsFrom (retention.filter
      self.nodes.contains)).contains key = true ↔ self.Retains retention key := by
    rw [contains_iff_mem, mem_append, mem_reachableNodeIds_iff, mem_reachableNodeIdsFrom_iff]
    simp only [mem_filter, contains_iff, Retains, and_assoc]
  rw [finalizeCheckedMutation, pruneNodesNotIn]
  simp only [get_retain]
  rw [← hkept]
  split
  · next hyes => exact (and_iff_left hyes).symm
  · next hno =>
    constructor
    · intro hnone
      cases hnone
    · rintro ⟨-, hyes⟩
      exact absurd hyes hno

theorem finalizeCheckedMutation_childrenOf (h : self.Retains retention key) :
    (self.finalizeCheckedMutation retention).nodes.childrenOf key = self.nodes.childrenOf key := by
  rw [DockNodes.childrenOf, DockNodes.childrenOf]
  cases hget : self.nodes.get key with
  | none =>
    cases hafter : (self.finalizeCheckedMutation retention).nodes.get key with
    | none => rfl
    | some node =>
      rw [(finalizeCheckedMutation_get_iff.mp hafter).1] at hget
      cases hget
  | some node => rw [finalizeCheckedMutation_get_iff.mpr ⟨hget, h⟩]

/-- From a kept node the same nodes are reached before and after the sweep. -/
theorem finalizeCheckedMutation_reaches {start : DockNodeId} (h : self.Retains retention start) :
    Reaches (self.finalizeCheckedMutation retention).nodes.childrenOf start key ↔
      Reaches self.nodes.childrenOf start key := by
  have hsame : ∀ vertex, self.Retains retention vertex →
      (self.finalizeCheckedMutation retention).nodes.childrenOf vertex =
        self.nodes.childrenOf vertex := fun vertex => finalizeCheckedMutation_childrenOf
  constructor
  · intro hreach
    apply hreach.congr_on (P := self.Retains retention) _ (fun vertex hvertex =>
      (hsame vertex hvertex).symm) h
    intro vertex hvertex child hchild
    rw [hsame vertex hvertex] at hchild
    exact hvertex.child hchild
  · intro hreach
    exact hreach.congr_on (fun vertex hvertex child hchild => hvertex.child hchild) hsame h

theorem finalizeCheckedMutation_attached :
    (self.finalizeCheckedMutation retention).Attached key ↔ self.Attached key := by
  constructor
  · rintro ⟨space, top, htop, hreach⟩
    have hkept : self.Retains retention top := .inl ⟨space, top, htop, Reaches.refl _⟩
    exact ⟨space, top, htop, (finalizeCheckedMutation_reaches hkept).mp hreach⟩
  · rintro ⟨space, top, htop, hreach⟩
    have hkept : self.Retains retention top := .inl ⟨space, top, htop, Reaches.refl _⟩
    exact ⟨space, top, htop, (finalizeCheckedMutation_reaches hkept).mpr hreach⟩

end Sweep

/-- In a graph that holds a forest the attached nodes are those of its trees. -/
theorem Holds.stored_of_attached {forest : DockForest} (h : self.Holds forest)
    (hkey : self.Attached key) : ∃ node, self.nodes.get key = some node := by
  obtain ⟨space, top, htop, hreach⟩ := hkey
  have hplace : ∃ sub ∈ (forest space).subtrees, sub.id = key := by
    refine hreach.inherits (P := fun vertex => ∃ sub ∈ (forest space).subtrees, sub.id = vertex)
      ?_ ?_
    · rintro _ ⟨sub, hsub, rfl⟩ child hchild
      rw [DockNodes.childrenOf, h.get hsub] at hchild
      dsimp only at hchild
      rw [DockTree.node_children] at hchild
      obtain ⟨low, hlow, rfl⟩ := mem_map.mp hchild
      obtain ⟨tree, htree, hin⟩ := mem_flatMap.mp hsub
      exact ⟨low, mem_flatMap.mpr ⟨tree, htree,
        DockTree.mem_subtrees_trans hin (DockTree.child_mem_subtrees hlow)⟩, rfl⟩
    · rw [h.spaceRoots_eq] at htop
      obtain ⟨tree, htree, rfl⟩ := mem_map.mp htop
      exact ⟨tree, Holds.tree_mem_subtrees htree, rfl⟩
  obtain ⟨sub, hsub, rfl⟩ := hplace
  exact ⟨_, h.get hsub⟩

/-- What a checked operation leaves of the trees staged below a root. -/
structure StagedTreeKept (before : DockGraph) (op : DockOp) (after : DockGraph)
    (root : DockNodeId) : Prop where
  nodes : ∀ key : DockNodeId, Reaches before.nodes.childrenOf root key → before.Staged key →
    ∃ node later, before.nodes.get key = some node ∧ after.nodes.get key = some later ∧
      later.contents = node.contents ∧ (¬ op.edits key → later = node) ∧ ¬ after.Attached key
  shared : ∀ (key : DockNodeId) (node : DockNode), Reaches after.nodes.childrenOf root key →
    before.nodes.get key = some node → ∃ later, after.nodes.get key = some later

theorem KeepsStaged.treeKept (h : self.KeepsStaged op after) (root : DockNodeId) :
    self.StagedTreeKept op after root where
  nodes key _ hstaged := by
    obtain ⟨node, later, hget, hlater, hcontents, hsame⟩ := h.same key hstaged
    exact ⟨node, later, hget, hlater, hcontents, hsame, h.apart key hstaged⟩
  shared key node _ hget := h.stored key node hget

/-- The sweep that ends an operation keeps the staged trees. -/
theorem KeepsStaged.treeKept_finalize (h : self.KeepsStaged op next) {root : DockNodeId}
    (hroot : self.StagedRoot root) :
    self.StagedTreeKept op (next.finalizeCheckedMutation self.captureMutationRetention) root := by
  obtain ⟨_, later, -, hstored, -, -⟩ := h.same root hroot.staged
  have hretains : ∀ key, Reaches next.nodes.childrenOf root key →
      next.Retains self.captureMutationRetention key := fun key hreach =>
    .inr ⟨root, mem_captureMutationRetention_iff.mpr hroot, ⟨later, hstored⟩, hreach⟩
  constructor
  · intro key hreach hstaged
    obtain ⟨node, later, hget, hlater, hcontents, hsame⟩ := h.same key hstaged
    -- above a staged node the path meets staged nodes only, whose children are the same
    have hpath : Reaches next.nodes.childrenOf root key := by
      have hbelow : self.Staged key → Reaches next.nodes.childrenOf root key := by
        clear hstaged hget hlater hcontents hsame
        induction hreach with
        | refl => exact fun _ => Reaches.refl _
        | @tail middle last hprefix hstep ih =>
          intro hlast
          have hmiddle : self.Staged middle := by
            refine ⟨?_, fun hattached => hlast.2 (hattached.child hstep)⟩
            rw [DockNodes.childrenOf] at hstep
            split at hstep
            · next node hnode => exact ⟨node, hnode⟩
            · cases hstep
          obtain ⟨own, ownLater, hown, hownLater, hownContents, -⟩ := h.same middle hmiddle
          refine Relation.ReflTransGen.tail (ih hmiddle) ?_
          rw [DockNodes.childrenOf, hown] at hstep
          rw [DockNodes.childrenOf, hownLater]
          dsimp only at hstep ⊢
          rwa [← ownLater.children_contents, hownContents, own.children_contents]
      exact hbelow hstaged
    refine ⟨node, later, hget, finalizeCheckedMutation_get_iff.mpr ⟨hlater, hretains key hpath⟩,
      hcontents, hsame, fun hattached => ?_⟩
    exact h.apart key hstaged (finalizeCheckedMutation_attached.mp hattached)
  · intro key node hreach hget
    obtain ⟨later, hlater⟩ := h.stored key node hget
    have hpath := (finalizeCheckedMutation_reaches (hretains root (Reaches.refl _))).mp hreach
    exact ⟨later, finalizeCheckedMutation_get_iff.mpr ⟨hlater, hretains key hpath⟩⟩

/-- A checked operation keeps every staged root with its tree, loses no node a space refers
to, and, when it reports a change through its plan, reclaims every node that neither a space
nor a staged root refers to. -/
theorem staged_trees_survive {changed : Bool} (hvalid : self.validate = .ok ())
    (hop : self.applyOpChecked op = .ok (changed, after)) :
    (∀ root, self.StagedRoot root → self.StagedTreeKept op after root)
      ∧ (∀ key, after.Attached key → ∃ node, after.nodes.get key = some node)
      ∧ (∀ key node, after.nodes.get key = some node → after.Attached key
          ∨ (∃ root, self.StagedRoot root ∧ Reaches after.nodes.childrenOf root key)
          ∨ ((changed = false ∨ ∃ tabs item, op = .selectTab tabs item) ∧ self.Staged key)) := by
  obtain ⟨forest, hholds, hforest⟩ := validate_ok_iff.mp hvalid
  obtain ⟨hvalidate, hcase⟩ := applyOpChecked_ok hop
  have hafter : ∃ last, after.Holds last := by
    rcases applyOpChecked_forest hholds hforest hop with ⟨rfl, -⟩ | ⟨last, -, hlast, -⟩
    · exact ⟨forest, hholds⟩
    · exact ⟨last, hlast⟩
  obtain ⟨last, hlast⟩ := hafter
  refine ⟨?_, fun key hkey => hlast.stored_of_attached hkey, ?_⟩
  · intro root hroot
    rcases hcase with ⟨tabs, item, rfl, hselect⟩ | ⟨-, rfl, -⟩ | ⟨-, -, hcommits⟩
    · exact (selectTab_sameContents hselect).keepsStaged.treeKept root
    · exact (SameContents.refl op.edits after).keepsStaged.treeKept root
    · obtain ⟨next, happly, rfl⟩ := hcommits.applied
      exact (applyOpUnchecked_keepsStaged hvalidate happly).treeKept_finalize hroot
  · intro key node hget
    rcases hcase with ⟨tabs, item, rfl, hselect⟩ | ⟨hchanged, rfl, -⟩ | ⟨-, -, hcommits⟩
    · have hsame := selectTab_sameContents hselect
      by_cases hattached : self.Attached key
      · exact .inl (hsame.attached_iff.mpr hattached)
      · have hcontents := hsame.contents key
        rw [hget] at hcontents
        obtain ⟨old, hold, -⟩ := map_eq_some_iff.mp hcontents.symm
        exact .inr (.inr ⟨.inr ⟨tabs, item, rfl⟩, ⟨old, hold⟩, hattached⟩)
    · by_cases hattached : after.Attached key
      · exact .inl hattached
      · exact .inr (.inr ⟨.inl hchanged, ⟨node, hget⟩, hattached⟩)
    · obtain ⟨next, happly, rfl⟩ := hcommits.applied
      obtain ⟨-, hretains⟩ := finalizeCheckedMutation_get_iff.mp hget
      rcases hretains with hattached | ⟨root, hroot, hstored, hreach⟩
      · exact .inl (finalizeCheckedMutation_attached.mpr hattached)
      · have hkept : next.Retains self.captureMutationRetention root :=
          Or.inr ⟨root, hroot, hstored, Reaches.refl _⟩
        exact .inr (.inl ⟨root, mem_captureMutationRetention_iff.mp hroot,
          (finalizeCheckedMutation_reaches hkept).mpr hreach⟩)

end DockGraph

namespace RetentionWitness

/-- Three stacks in a row, and a container staged over the same row. -/
def sharedRow : DockGraph :=
  let (left, graph) := DockGraph.new.insertNode (.tabs ["a"] (some "a"))
  let (middle, graph) := graph.insertNode (.tabs ["b"] (some "b"))
  let (right, graph) := graph.insertNode (.tabs ["c"] (some "c"))
  let (row, graph) := graph.insertNode
    (.split .horizontal [left, middle, right] [1 / 3, 1 / 3, 1 / 3])
  let (_, graph) := graph.insertNode (.floating row)
  graph.setRoot "main" row

theorem sharedRow_valid : sharedRow.validate = .ok () := by decide +kernel

theorem sharedRow_stagedRoot : sharedRow.StagedRoot 4 :=
  DockGraph.mem_captureMutationRetention_iff.mp (by decide)

theorem sharedRow_reaches : Reaches sharedRow.nodes.childrenOf 4 0 :=
  have hrow : 3 ∈ sharedRow.nodes.childrenOf 4 := by decide
  have hleft : 0 ∈ sharedRow.nodes.childrenOf 3 := by decide
  .of_step hrow (.of_step hleft (.refl 0))

end RetentionWitness

open RetentionWitness in
/-- A node a staged tree shares with an attached one goes when the attached tree drops it. -/
theorem shared_node_reclaimed :
    ¬ ∀ (self after : DockGraph) (op : DockOp) (changed : Bool) (root key : DockNodeId),
      self.validate = .ok () → self.applyOpChecked op = .ok (changed, after) →
      self.StagedRoot root → Reaches self.nodes.childrenOf root key →
      (∃ node, self.nodes.get key = some node) → ∃ node, after.nodes.get key = some node := by
  intro hall
  have hresult : ((sharedRow.applyOpChecked (.closeItem "main" "a")).toOption.map
      fun result => result.2.nodes.get 0) = some none := by decide +kernel
  obtain ⟨⟨changed, after⟩, hop, hgone⟩ := map_eq_some_iff.mp hresult
  have hclosed : sharedRow.applyOpChecked (.closeItem "main" "a") = .ok (changed, after) := by
    cases hexcept : sharedRow.applyOpChecked (.closeItem "main" "a") with
    | error error =>
      rw [hexcept] at hop
      cases hop
    | ok result =>
      rw [hexcept] at hop
      cases hop
      rfl
  obtain ⟨node, hget⟩ := hall sharedRow after _ changed 4 0 sharedRow_valid hclosed
    sharedRow_stagedRoot sharedRow_reaches ⟨_, (by decide :
      sharedRow.nodes.get 0 = some (.tabs ["a"] (some "a")))⟩
  rw [hgone] at hget
  cases hget

open RetentionWitness in
theorem staged_trees_survive_close :
    ∃ after, sharedRow.applyOpChecked (.closeItem "main" "a") = .ok (true, after)
      ∧ after.nodes.get 4 = some (.floating 3) ∧ ¬ after.Attached 4 := by
  obtain ⟨after, hop⟩ : ∃ after,
      sharedRow.applyOpChecked (.closeItem "main" "a") = .ok (true, after) :=
    DockGraph.exists_of_changes (by decide +kernel)
  obtain ⟨hkept, -, -⟩ := DockGraph.staged_trees_survive sharedRow_valid hop
  obtain ⟨node, later, hget, hlater, -, hsame, hapart⟩ :=
    (hkept 4 sharedRow_stagedRoot).nodes 4 (.refl _) sharedRow_stagedRoot.staged
  have hstored : sharedRow.nodes.get 4 = some (.floating 3) := by decide
  rw [hstored] at hget
  cases hget
  rw [hsame id] at hlater
  exact ⟨after, hop, hlater, hapart⟩

end Docking

end OpenGpui
