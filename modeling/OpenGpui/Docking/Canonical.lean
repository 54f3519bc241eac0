/-
Simplification of subtrees, the per-space cleanup after a mutation, and the
mark-and-sweep that reclaims nodes no tree refers to.
-/
import OpenGpui.Docking.Graph
import OpenGpui.Library.Worklist

namespace OpenGpui.Docking

open KeyMap List

/-- Children with their shares; a missing fraction counts as one. -/
def childShares : List DockNodeId → List Scalar → List (DockNodeId × Scalar)
  | [], _ => []
  | child :: children, fractions =>
    (child, fractions.headD 1) :: childShares children fractions.tail

namespace DockNodes

variable (nodes : DockNodes)

def childrenOf (id : DockNodeId) : List DockNodeId :=
  match nodes.get id with
  | some node => node.children
  | none => []

/-- Replaces the child of a node that is still a floating container. -/
def setFloatingChild (node child : DockNodeId) : DockNodes :=
  match nodes.get node with
  | some (.floating _) => nodes.set node (.floating child)
  | _ => nodes

/-- Replaces the children of a node that is still a split. -/
def setSplitChildren (node : DockNodeId) (children : List DockNodeId)
    (fractions : List Scalar) : DockNodes :=
  match nodes.get node with
  | some (.split axis _ _) => nodes.set node (.split axis children fractions)
  | _ => nodes

/-- The shares of the children a same-axis split child is replaced with. -/
def grandShares (parentShare : Scalar) (grandChildren : List DockNodeId)
    (grandFractions : List Scalar) : List (DockNodeId × Scalar) :=
  grandChildren.zip ((UiCore.normalizeSplitFractions grandFractions).map (parentShare * ·))

/-- One pass over the children; the flag tells whether any child was replaced. -/
def flattenPass (nodes : DockNodes) (axis : SplitAxis) :
    List (DockNodeId × Scalar) → Bool × List (DockNodeId × Scalar)
  | [] => (false, [])
  | (child, parentShare) :: rest =>
    let (changed, out) := flattenPass nodes axis rest
    match nodes.get child with
    | some (.split childAxis grandChildren grandFractions) =>
      if childAxis ≠ axis then (changed, (child, parentShare) :: out)
      else (true, grandShares parentShare grandChildren grandFractions ++ out)
    | _ => (changed, (child, parentShare) :: out)

def flattenSameAxisSplits (nodes : DockNodes) (axis : SplitAxis) :
    Nat → List (DockNodeId × Scalar) → List (DockNodeId × Scalar)
  | 0, children => children
  | fuel + 1, children =>
    let (changed, out) := flattenPass nodes axis children
    if changed then flattenSameAxisSplits nodes axis fuel out else out

/-- Simplifies the children in order and keeps the shares of those that remain. -/
def simplifyChildren (simplify : DockNodeId → DockNodes → Option DockNodeId × DockNodes) :
    List (DockNodeId × Scalar) → DockNodes → List (DockNodeId × Scalar) × DockNodes
  | [], nodes => ([], nodes)
  | (child, fraction) :: rest, nodes =>
    match simplify child nodes with
    | (none, nodes) => simplifyChildren simplify rest nodes
    | (some child, nodes) =>
      let (kept, nodes) := simplifyChildren simplify rest nodes
      ((child, fraction) :: kept, nodes)

/-- What remains of a split whose children are already simplified. -/
def settleSplit (fuel : Nat) (node : DockNodeId) (axis : SplitAxis) :
    List (DockNodeId × Scalar) → Option DockNodeId × DockNodes
  | [] => (none, nodes)
  | [only] => (some only.1, nodes)
  | kept =>
    match nodes.flattenSameAxisSplits axis fuel kept with
    | [] => (none, nodes)
    | [only] => (some only.1, nodes)
    | flat =>
      (some node, nodes.setSplitChildren node (flat.map Prod.fst)
        (UiCore.normalizeSplitFractions (flat.map Prod.snd)))

def simplifySubtree : Nat → DockNodeId → DockNodes → Option DockNodeId × DockNodes
  | 0, _, nodes => (none, nodes)
  | fuel + 1, node, nodes =>
    match nodes.get node with
    | none => (none, nodes)
    | some (.tabs items _) => (if items.isEmpty then none else some node, nodes)
    | some (.floating child) =>
      match simplifySubtree fuel child nodes with
      | (none, nodes) => (none, nodes)
      | (some child, nodes) => (some node, nodes.setFloatingChild node child)
    | some (.split axis children fractions) =>
      let (kept, nodes) :=
        simplifyChildren (simplifySubtree fuel) (childShares children fractions) nodes
      nodes.settleSplit fuel node axis kept

/-- Simplifies the containers in order and drops those that hold nothing. -/
def simplifyFloatings (fuel : Nat) :
    List DockFloatingContainer → DockNodes → List DockFloatingContainer × DockNodes
  | [], nodes => ([], nodes)
  | floating :: rest, nodes =>
    match simplifySubtree fuel floating.node nodes with
    | (none, nodes) => simplifyFloatings fuel rest nodes
    | (some node, nodes) =>
      let (kept, nodes) := simplifyFloatings fuel rest nodes
      ({ floating with node := node } :: kept, nodes)

end DockNodes

namespace DockGraph

/-- The central node after the root of its space went from `previousRoot` to
`simplifiedRoot`, before the check that it is still below the root. -/
def reboundCentralNode (centralNode previousRoot simplifiedRoot : Option DockNodeId) :
    Option DockNodeId :=
  match previousRoot, simplifiedRoot with
  | some previous, some simplified =>
    if centralNode = some previous ∧ previous ≠ simplified then some simplified
    else centralNode
  | _, _ => centralNode

def simplifyRoot (self : DockGraph) (space : DockSpaceId) : Option DockNodeId × DockGraph :=
  match self.root space with
  | none => (none, self.removeRoot space)
  | some root =>
    let (simplified, nodes) := DockNodes.simplifySubtree self.fuel root self.nodes
    let self := { self with nodes := nodes }
    match simplified with
    | some root => (some root, self.setRoot space root)
    | none => (none, self.removeRoot space)

def simplifyCentral (self : DockGraph) (space : DockSpaceId)
    (previousRoot simplifiedRoot : Option DockNodeId) : DockGraph :=
  match self.centralRegion space with
  | none => self
  | some central =>
    let node := reboundCentralNode central.node previousRoot simplifiedRoot
    let node := node.filter fun node => self.rootSubtreeContains space node
    self.setCentralRegion space { central with node := node }

def simplifySpaceFloatings (self : DockGraph) (space : DockSpaceId) : DockGraph :=
  match self.floatings[space]? with
  | none => self
  | some floatings =>
    let (kept, nodes) := DockNodes.simplifyFloatings self.fuel floatings self.nodes
    { self with
      nodes := nodes
      floatings :=
        if kept.isEmpty then self.floatings.erase space
        else self.floatings.insert space kept }

def simplifySpaceStructure (self : DockGraph) (space : DockSpaceId) : DockGraph :=
  let previousRoot := self.root space
  let (simplifiedRoot, rooted) := self.simplifyRoot space
  (rooted.simplifyCentral space previousRoot simplifiedRoot).simplifySpaceFloatings space

section Frame

variable (self : DockGraph) (space : DockSpaceId)

@[simp] theorem simplifyRoot_floatings :
    (self.simplifyRoot space).2.floatings = self.floatings := by
  simp only [simplifyRoot]
  repeat' split
  all_goals rfl

@[simp] theorem simplifyRoot_centralRegions :
    (self.simplifyRoot space).2.centralRegions = self.centralRegions := by
  simp only [simplifyRoot]
  repeat' split
  all_goals rfl

@[simp] theorem simplifyRoot_tabSelectionHistory :
    (self.simplifyRoot space).2.tabSelectionHistory = self.tabSelectionHistory := by
  simp only [simplifyRoot]
  repeat' split
  all_goals rfl

theorem simplifyRoot_roots_get :
    (self.simplifyRoot space).2.roots[space]? = (self.simplifyRoot space).1 := by
  simp only [simplifyRoot]
  repeat' split
  all_goals simp [removeRoot, setRoot]

variable {other : DockSpaceId}

theorem simplifyRoot_roots_get_ne (hne : space ≠ other) :
    (self.simplifyRoot space).2.roots[other]? = self.roots[other]? := by
  simp only [simplifyRoot]
  repeat' split
  all_goals simp [removeRoot, setRoot, get_erase, get_insert, hne]

variable (previous simplified : Option DockNodeId)

@[simp] theorem simplifyCentral_nodes :
    (self.simplifyCentral space previous simplified).nodes = self.nodes := by
  simp only [simplifyCentral]
  split <;> rfl

@[simp] theorem simplifyCentral_roots :
    (self.simplifyCentral space previous simplified).roots = self.roots := by
  simp only [simplifyCentral]
  split <;> rfl

@[simp] theorem simplifyCentral_floatings :
    (self.simplifyCentral space previous simplified).floatings = self.floatings := by
  simp only [simplifyCentral]
  split <;> rfl

@[simp] theorem simplifyCentral_tabSelectionHistory :
    (self.simplifyCentral space previous simplified).tabSelectionHistory =
      self.tabSelectionHistory := by
  simp only [simplifyCentral]
  split <;> rfl

@[simp] theorem simplifySpaceFloatings_roots :
    (self.simplifySpaceFloatings space).roots = self.roots := by
  simp only [simplifySpaceFloatings]
  split <;> rfl

@[simp] theorem simplifySpaceFloatings_tabSelectionHistory :
    (self.simplifySpaceFloatings space).tabSelectionHistory = self.tabSelectionHistory := by
  simp only [simplifySpaceFloatings]
  split <;> rfl

theorem simplifySpaceFloatings_get_ne (hne : space ≠ other) :
    (self.simplifySpaceFloatings space).floatings[other]? = self.floatings[other]? := by
  simp only [simplifySpaceFloatings]
  split
  · rfl
  · split <;> simp [get_erase, get_insert, hne]

theorem simplifySpaceStructure_root_ne (hne : space ≠ other) :
    (self.simplifySpaceStructure space).roots[other]? = self.roots[other]? := by
  simp only [simplifySpaceStructure, simplifySpaceFloatings_roots, simplifyCentral_roots]
  exact self.simplifyRoot_roots_get_ne space hne

theorem simplifySpaceStructure_floatings_ne (hne : space ≠ other) :
    (self.simplifySpaceStructure space).floatings[other]? = self.floatings[other]? := by
  rw [simplifySpaceStructure, simplifySpaceFloatings_get_ne _ _ hne, simplifyCentral_floatings,
    simplifyRoot_floatings]

@[simp] theorem simplifySpaceStructure_tabSelectionHistory :
    (self.simplifySpaceStructure space).tabSelectionHistory = self.tabSelectionHistory := by
  simp [simplifySpaceStructure]

/-- A space without a root gains none. -/
theorem simplifySpaceStructure_root_none (hnone : self.roots[space]? = none) :
    (self.simplifySpaceStructure space).roots[space]? = none := by
  simp only [simplifySpaceStructure, simplifySpaceFloatings_roots, simplifyCentral_roots]
  rw [simplifyRoot_roots_get, simplifyRoot, root, hnone]

/-- A space without floating containers gains none. -/
theorem simplifySpaceStructure_floatings_none (hnone : self.floatings[space]? = none) :
    (self.simplifySpaceStructure space).floatings[space]? = none := by
  have hpre : ((self.simplifyRoot space).2.simplifyCentral space (self.root space)
      (self.simplifyRoot space).1).floatings[space]? = none := by
    rw [simplifyCentral_floatings, simplifyRoot_floatings, hnone]
  simp only [simplifySpaceStructure]
  rw [simplifySpaceFloatings]
  simp only [hpre]

end Frame

def simplifySpace (self : DockGraph) (space : DockSpaceId) : DockGraph :=
  self.simplifySpaceStructure space

def simplifySpaceAfterMutation (self : DockGraph) (space : DockSpaceId) : DockGraph :=
  self.simplifySpaceStructure space

def reachableNodeIdsFrom (self : DockGraph) (pending : List DockNodeId) : List DockNodeId :=
  Worklist.visit self.nodes.childrenOf
    (pending.length + Worklist.debt self.nodes.childrenOf self.nodes.keys [])
    pending.reverse []

/-- The top nodes of every space. -/
def topNodes (self : DockGraph) : List DockNodeId :=
  self.roots.toList.map Prod.snd ++ self.floatings.toList.flatMap fun entry => entry.2.map (·.node)

def reachableNodeIds (self : DockGraph) : List DockNodeId := self.reachableNodeIdsFrom self.topNodes

theorem mem_reachableNodeIdsFrom_iff (self : DockGraph) (pending : List DockNodeId)
    (target : DockNodeId) :
    target ∈ self.reachableNodeIdsFrom pending ↔
      ∃ start ∈ pending, Worklist.Reaches self.nodes.childrenOf start target := by
  rw [reachableNodeIdsFrom, Worklist.mem_visit_iff (keys_nodup self.nodes.entries)]
  · simp only [mem_reverse]
  · intro node hnode
    rw [DockNodes.childrenOf]
    cases hget : self.nodes.get node with
    | none => rfl
    | some stored => exact absurd ((SlotMap.mem_keys_iff _ _).mpr ⟨stored, hget⟩) hnode
  · rw [length_reverse]
    exact Nat.le_refl _

/-- The top nodes are those of the single spaces. -/
theorem mem_topNodes_iff (self : DockGraph) (node : DockNodeId) :
    node ∈ self.topNodes ↔ ∃ space, node ∈ self.spaceRoots space := by
  simp only [topNodes, spaceRoots, mem_append, mem_map, mem_flatMap, Prod.exists,
    mem_toList_iff_get, Option.mem_toList, root, floatingContainers]
  constructor
  · rintro (⟨space, root, hroot, rfl⟩ | ⟨space, containers, hget, container, hmem, rfl⟩)
    · exact ⟨space, .inl hroot⟩
    · exact ⟨space, .inr ⟨container, by rwa [hget], rfl⟩⟩
  · rintro ⟨space, hroot | ⟨container, hmem, rfl⟩⟩
    · exact .inl ⟨space, node, hroot, rfl⟩
    · cases hget : self.floatings[space]? with
      | none =>
        rw [hget] at hmem
        cases hmem
      | some containers =>
        rw [hget] at hmem
        exact .inr ⟨space, containers, hget, container, hmem, rfl⟩

/-- Roots of the trees that are staged beside the attached ones. -/
def captureMutationRetention (self : DockGraph) : List DockNodeId :=
  let live := self.reachableNodeIds
  let stagingNodes := self.nodes.keys.filter fun node => !live.contains node
  let referencedByStaging :=
    (stagingNodes.flatMap self.nodes.childrenOf).filter stagingNodes.contains
  stagingNodes.filter fun node => !referencedByStaging.contains node

/-- A removed node loses its selection history, and so does every node that was
missing before. -/
def pruneNodesNotIn (self : DockGraph) (retained : List DockNodeId) : DockGraph :=
  let nodes := self.nodes.retain retained.contains
  { self with
    nodes := nodes
    tabSelectionHistory := self.tabSelectionHistory.filter fun node _ => nodes.contains node }

def pruneUnreachableNodes (self : DockGraph) : DockGraph :=
  self.pruneNodesNotIn self.reachableNodeIds

def finalizeCheckedMutation (self : DockGraph) (stagingRoots : List DockNodeId) : DockGraph :=
  self.pruneNodesNotIn (self.reachableNodeIds ++
    self.reachableNodeIdsFrom (stagingRoots.filter self.nodes.contains))

/-- Simplifies every space and drops every node no tree refers to. -/
def canonicalize (self : DockGraph) : DockGraph :=
  (self.spaces.foldl simplifySpaceStructure self).pruneUnreachableNodes

end DockGraph

end OpenGpui.Docking
