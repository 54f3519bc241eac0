/-
Nodes staged beside the attached trees: as long as no other node refers to them, every
edit of the attached trees leaves them as they are.
-/
import OpenGpui.Docking.OpSteps

namespace OpenGpui.Docking

open DockNodes List Option SlotMap DockGraph

/-- The arena keeps the staged nodes of an earlier one, no other node refers to them, and
nothing stored has been lost. -/
structure DockNodes.Fenced (original : DockNodes) (staged : DockNodeId → Prop)
    (nodes : DockNodes) : Prop where
  same : ∀ key : DockNodeId, staged key → nodes.get key = original.get key
  stored : ∀ (key : DockNodeId) (node : DockNode), original.get key = some node →
    ∃ later, nodes.get key = some later
  known : ∀ key : DockNodeId, staged key → key < nodes.next
  closed : ∀ key : DockNodeId, ¬ staged key → ∀ child ∈ nodes.childrenOf key, ¬ staged child

namespace DockNodes.Fenced

variable {original nodes : DockNodes} {staged : DockNodeId → Prop} {key : DockNodeId}

variable {node : DockNode}

section

variable (h : Fenced original staged nodes)

include h

/-- No node that is not staged has a staged child. -/
theorem child (hkey : ¬ staged key)
    (hget : nodes.get key = some node) : ∀ child ∈ node.children, ¬ staged child := by
  have hclosed := h.closed key hkey
  rwa [childrenOf, hget] at hclosed

theorem set (hkey : ¬ staged key) (hchildren : ∀ child ∈ node.children, ¬ staged child) :
    Fenced original staged (nodes.set key node) where
  same other hother := by
    have hne : key ≠ other := by
      rintro rfl
      exact hkey hother
    rw [get_set_ne _ _ hne, h.same other hother]
  stored other old hold := by
    obtain ⟨later, hlater⟩ := h.stored other old hold
    rw [get_set, hlater]
    split
    · exact ⟨node, rfl⟩
    · exact ⟨later, rfl⟩
  known := h.known
  closed other hother := by
    rw [childrenOf]
    by_cases heq : key = other
    · rw [get_set, if_pos heq]
      cases nodes.get other with
      | none => simp
      | some old => exact hchildren
    · rw [get_set_ne _ _ heq]
      exact h.closed other hother

theorem next_not_staged : ¬ staged nodes.next := fun hnext => Nat.lt_irrefl _ (h.known _ hnext)

theorem insert (hchildren : ∀ child ∈ node.children, ¬ staged child) :
    Fenced original staged (nodes.insert node).2 where
  same other hother := by
    have hne : nodes.next ≠ other := by
      rintro rfl
      exact h.next_not_staged hother
    rw [get_insert, if_neg hne, h.same other hother]
  stored other old hold := by
    obtain ⟨later, hlater⟩ := h.stored other old hold
    exact ⟨later, get_insert_of_stored _ hlater⟩
  known other hother := Nat.lt_succ_of_lt (h.known other hother)
  closed other hother := by
    rw [childrenOf, get_insert]
    by_cases heq : nodes.next = other
    · rw [if_pos heq]
      exact hchildren
    · rw [if_neg heq]
      exact h.closed other hother

theorem setFloatingChild (hkey : ¬ staged key) {child : DockNodeId} (hchild : ¬ staged child) :
    Fenced original staged (nodes.setFloatingChild key child) := by
  rw [DockNodes.setFloatingChild]
  split
  · exact h.set hkey (by simpa [DockNode.children] using hchild)
  · exact h

theorem setSplitChildren (hkey : ¬ staged key)
    {children : List DockNodeId} (hchildren : ∀ child ∈ children, ¬ staged child)
    (fractions : List Scalar) :
    Fenced original staged (nodes.setSplitChildren key children fractions) := by
  rw [DockNodes.setSplitChildren]
  split
  · exact h.set hkey hchildren
  · exact h

end

variable {entries : List (DockNodeId × Scalar)}

theorem mem_childShares {children : List DockNodeId} {fractions : List Scalar}
    {entry : DockNodeId × Scalar} (h : entry ∈ childShares children fractions) :
    entry.1 ∈ children := by
  induction children generalizing fractions with
  | nil => cases h
  | cons child rest ih =>
    rw [childShares, mem_cons] at h
    rcases h with rfl | h
    · exact mem_cons_self
    · exact mem_cons_of_mem _ (ih h)

section

variable (h : Fenced original staged nodes)

include h

/-- Flattening leaves what is staged alone. -/
theorem flattenPass (axis : SplitAxis) (hentries : ∀ entry ∈ entries, ¬ staged entry.1) :
    ∀ entry ∈ (DockNodes.flattenPass nodes axis entries).2, ¬ staged entry.1 := by
  induction entries with
  | nil => exact hentries
  | cons first rest ih =>
    obtain ⟨child, share⟩ := first
    have hchild : ¬ staged child := hentries _ mem_cons_self
    have hrest := ih fun entry hentry => hentries entry (mem_cons_of_mem _ hentry)
    have hkept : ∀ entry ∈ (child, share) :: (DockNodes.flattenPass nodes axis rest).2,
        ¬ staged entry.1 := forall_mem_cons.mpr ⟨hchild, hrest⟩
    simp only [DockNodes.flattenPass]
    split
    · next hget =>
      split
      · exact hkept
      · intro entry hentry
        rcases mem_append.mp hentry with hgrand | hold
        · exact h.child hchild hget _ (of_mem_zip hgrand).1
        · exact hrest entry hold
    · exact hkept

theorem flattenSameAxisSplits (axis : SplitAxis) (fuel : Nat)
    (hentries : ∀ entry ∈ entries, ¬ staged entry.1) :
    ∀ entry ∈ nodes.flattenSameAxisSplits axis fuel entries, ¬ staged entry.1 := by
  induction fuel generalizing entries with
  | zero => exact hentries
  | succ fuel ih =>
    have hpass := h.flattenPass axis hentries
    simp only [flattenSameAxisSplits]
    split
    · exact ih hpass
    · exact hpass

theorem settleSplit (fuel : Nat) (hkey : ¬ staged key)
    (axis : SplitAxis) (hentries : ∀ entry ∈ entries, ¬ staged entry.1) :
    Fenced original staged (nodes.settleSplit fuel key axis entries).2 ∧
      ∀ kept, (nodes.settleSplit fuel key axis entries).1 = some kept → ¬ staged kept := by
  have hflat := h.flattenSameAxisSplits axis fuel hentries
  simp only [DockNodes.settleSplit]
  split
  · exact ⟨h, by simp⟩
  · next only =>
    refine ⟨h, fun kept hkept => ?_⟩
    cases hkept
    exact hentries only mem_cons_self
  · split
    · exact ⟨h, by simp⟩
    · next only heq =>
      refine ⟨h, fun kept hkept => ?_⟩
      cases hkept
      exact hflat only (heq ▸ mem_cons_self)
    · refine ⟨h.setSplitChildren hkey ?_ _, fun kept hkept => ?_⟩
      · intro child hchild
        obtain ⟨entry, hentry, rfl⟩ := mem_map.mp hchild
        exact hflat entry hentry
      · cases hkept
        exact hkey

end

theorem simplifyChildren {simplify : DockNodeId → DockNodes → Option DockNodeId × DockNodes}
    (hsimplify : ∀ (child : DockNodeId) (nodes : DockNodes), Fenced original staged nodes →
      ¬ staged child → Fenced original staged (simplify child nodes).2 ∧
        ∀ kept, (simplify child nodes).1 = some kept → ¬ staged kept)
    (h : Fenced original staged nodes) (hentries : ∀ entry ∈ entries, ¬ staged entry.1) :
    Fenced original staged (simplifyChildren simplify entries nodes).2 ∧
      ∀ entry ∈ (simplifyChildren simplify entries nodes).1, ¬ staged entry.1 := by
  induction entries generalizing nodes with
  | nil => exact ⟨h, hentries⟩
  | cons first rest ih =>
    obtain ⟨child, share⟩ := first
    have hchild := hsimplify child nodes h (hentries _ mem_cons_self)
    have hrest : ∀ entry ∈ rest, ¬ staged entry.1 := fun entry hentry =>
      hentries entry (mem_cons_of_mem _ hentry)
    simp only [simplifyChildren]
    split
    · next next heq =>
      rw [heq] at hchild
      exact ih hchild.1 hrest
    · next kept next heq =>
      rw [heq] at hchild
      have hbelow := ih hchild.1 hrest
      exact ⟨hbelow.1, forall_mem_cons.mpr ⟨hchild.2 kept rfl, hbelow.2⟩⟩

/-- Simplification leaves what is staged alone. -/
theorem simplifySubtree (fuel : Nat) (node : DockNodeId) (nodes : DockNodes)
    (h : Fenced original staged nodes) (hnode : ¬ staged node) :
    Fenced original staged (DockNodes.simplifySubtree fuel node nodes).2 ∧
      ∀ kept, (DockNodes.simplifySubtree fuel node nodes).1 = some kept → ¬ staged kept := by
  induction fuel generalizing node nodes with
  | zero => exact ⟨h, fun _ hkept => by cases hkept⟩
  | succ fuel ih =>
    simp only [DockNodes.simplifySubtree]
    split
    · exact ⟨h, by simp⟩
    · refine ⟨h, fun kept hkept => ?_⟩
      split at hkept
      · cases hkept
      · cases hkept
        exact hnode
    · next child hget =>
      have hchild := ih child nodes h (h.child hnode hget child (mem_singleton_self child))
      split
      · next next heq =>
        rw [heq] at hchild
        exact ⟨hchild.1, by simp⟩
      · next kept next heq =>
        rw [heq] at hchild
        refine ⟨hchild.1.setFloatingChild hnode (hchild.2 kept rfl), fun kept hkept => ?_⟩
        cases hkept
        exact hnode
    · next axis children fractions hget =>
      have hentries : ∀ entry ∈ childShares children fractions, ¬ staged entry.1 :=
        fun entry hentry => h.child hnode hget _ (mem_childShares hentry)
      have hbelow := simplifyChildren ih h hentries
      exact hbelow.1.settleSplit _ hnode axis hbelow.2

theorem simplifyFloatings (fuel : Nat) {floatings : List DockFloatingContainer}
    (h : Fenced original staged nodes)
    (hfloatings : ∀ container ∈ floatings, ¬ staged container.node) :
    Fenced original staged (simplifyFloatings fuel floatings nodes).2 ∧
      ∀ container ∈ (simplifyFloatings fuel floatings nodes).1, ¬ staged container.node := by
  induction floatings generalizing nodes with
  | nil => exact ⟨h, hfloatings⟩
  | cons floating rest ih =>
    have hnode := simplifySubtree fuel floating.node nodes h (hfloatings _ mem_cons_self)
    have hrest : ∀ container ∈ rest, ¬ staged container.node := fun container hcontainer =>
      hfloatings container (mem_cons_of_mem _ hcontainer)
    simp only [simplifyFloatings]
    split
    · next next heq =>
      rw [heq] at hnode
      exact ih hnode.1 hrest
    · next kept next heq =>
      rw [heq] at hnode
      have hbelow := ih hnode.1 hrest
      exact ⟨hbelow.1, forall_mem_cons.mpr ⟨hnode.2 kept rfl, hbelow.2⟩⟩

end DockNodes.Fenced

namespace DockGraph

/-- The arena is fenced, and no space has a staged node at its top. -/
structure Fenced (original : DockNodes) (staged : DockNodeId → Prop) (graph : DockGraph) :
    Prop where
  nodes : DockNodes.Fenced original staged graph.nodes
  roots : ∀ (space : DockSpaceId) (root : DockNodeId), graph.root space = some root → ¬ staged root
  floatings : ∀ space : DockSpaceId, ∀ container ∈ graph.floatingContainers space,
    ¬ staged container.node

namespace Fenced

variable {original : DockNodes} {staged : DockNodeId → Prop} {self after : DockGraph}
  {space : DockSpaceId} {key : DockNodeId}

section

variable (h : Fenced original staged self)

include h

theorem of_eq (hnodes : after.nodes = self.nodes)
    (hroots : after.roots = self.roots) (hfloatings : after.floatings = self.floatings) :
    Fenced original staged after where
  nodes := hnodes ▸ h.nodes
  roots space root hroot := h.roots space root (by rwa [DockGraph.root, ← hroots])
  floatings space := by
    rw [floatingContainers, hfloatings]
    exact h.floatings space

/-- The trees of a space are not staged. -/
theorem tops : ∀ top ∈ self.spaceRoots space, ¬ staged top := by
  intro top htop
  rcases mem_append.mp htop with hroot | hfloating
  · exact h.roots space top (mem_toList.mp hroot)
  · obtain ⟨container, hcontainer, rfl⟩ := mem_map.mp hfloating
    exact h.floatings space container hcontainer

variable {node : DockNode}

theorem setNode (hkey : ¬ staged key) (hchildren : ∀ child ∈ node.children, ¬ staged child) :
    Fenced original staged (self.setNode key node) :=
  ⟨h.nodes.set hkey hchildren, h.roots, h.floatings⟩

theorem setTabs (hkey : ¬ staged key) (items : List DockItemId) (selected : Option DockItemId) :
    Fenced original staged (self.setNode key (.tabs items selected)) :=
  h.setNode hkey fun _ hchild => absurd hchild not_mem_nil

theorem insertNode (hchildren : ∀ child ∈ node.children, ¬ staged child) :
    Fenced original staged (self.insertNode node).2 :=
  ⟨h.nodes.insert hchildren, h.roots, h.floatings⟩

theorem insertTabs (items : List DockItemId) (selected : Option DockItemId) :
    Fenced original staged (self.insertNode (.tabs items selected)).2 :=
  h.insertNode fun _ hchild => absurd hchild not_mem_nil

theorem setRoot (hkey : ¬ staged key) (space : DockSpaceId) :
    Fenced original staged (self.setRoot space key) where
  nodes := h.nodes
  roots other root hroot := by
    rw [DockGraph.root, DockGraph.setRoot, KeyMap.get_insert] at hroot
    split at hroot
    · cases hroot
      exact hkey
    · exact h.roots other root hroot
  floatings := h.floatings

theorem removeRoot (space : DockSpaceId) : Fenced original staged (self.removeRoot space) where
  nodes := h.nodes
  roots other root hroot := by
    rw [DockGraph.root, DockGraph.removeRoot, KeyMap.get_erase] at hroot
    split at hroot
    · cases hroot
    · exact h.roots other root hroot
  floatings := h.floatings

theorem setRootForEmptySpace (hkey : ¬ staged key)
    (space : DockSpaceId) : Fenced original staged (self.setRootForEmptySpace space key) :=
  (h.setRoot hkey space).of_eq (Holds.setRootForEmptySpace_nodes _ _ _)
    (setRootForEmptySpace_roots _ _ _) (Holds.setRootForEmptySpace_floatings _ _ _)

/-- Another list of containers for a space. -/
theorem setFloatings (space : DockSpaceId) {floatings : List DockFloatingContainer}
    (hfloatings : ∀ container ∈ floatings, ¬ staged container.node) :
    Fenced original staged { self with floatings := self.floatings.insert space floatings } where
  nodes := h.nodes
  roots := h.roots
  floatings other container hcontainer := by
    rw [floatingContainers, KeyMap.get_insert] at hcontainer
    split at hcontainer
    · exact hfloatings container hcontainer
    · exact h.floatings other container hcontainer

theorem eraseFloatings (space : DockSpaceId) :
    Fenced original staged { self with floatings := self.floatings.erase space } where
  nodes := h.nodes
  roots := h.roots
  floatings other container hcontainer := by
    rw [floatingContainers, KeyMap.get_erase] at hcontainer
    split at hcontainer
    · cases hcontainer
    · exact h.floatings other container hcontainer

theorem withNodes {nodes : DockNodes} (hnodes : DockNodes.Fenced original staged nodes) :
    Fenced original staged { self with nodes := nodes } :=
  ⟨hnodes, h.roots, h.floatings⟩

theorem pushFloating (space : DockSpaceId) (hkey : ¬ staged key) (bounds : Bounds) :
    Fenced original staged (self.pushFloating space key bounds) := by
  have hinsert : Fenced original staged (self.insertNode (.floating key)).2 :=
    h.insertNode (by simpa [DockNode.children] using hkey)
  refine hinsert.setFloatings space fun container hcontainer => ?_
  rcases mem_append.mp hcontainer with hold | hnew
  · exact hinsert.floatings space container hold
  · rw [mem_singleton.mp hnew]
    exact h.nodes.next_not_staged

theorem simplifyRoot (space : DockSpaceId) :
    Fenced original staged (self.simplifyRoot space).2 := by
  simp only [DockGraph.simplifyRoot]
  split
  · exact h.removeRoot space
  · next root hroot =>
    have hsubtree := DockNodes.Fenced.simplifySubtree self.fuel root self.nodes h.nodes
      (h.roots space root hroot)
    split
    · next kept hkept => exact (h.withNodes hsubtree.1).setRoot (hsubtree.2 kept hkept) space
    · exact (h.withNodes hsubtree.1).removeRoot space

theorem simplifySpaceFloatings (space : DockSpaceId) :
    Fenced original staged (self.simplifySpaceFloatings space) := by
  simp only [DockGraph.simplifySpaceFloatings]
  split
  · exact h
  · next floatings hget =>
    have hcontainers : ∀ container ∈ floatings, ¬ staged container.node := by
      have hspace := h.floatings space
      rwa [floatingContainers, hget] at hspace
    have hsimplify := DockNodes.Fenced.simplifyFloatings self.fuel h.nodes hcontainers
    split
    · exact (h.withNodes hsimplify.1).eraseFloatings space
    · exact (h.withNodes hsimplify.1).setFloatings space hsimplify.2

theorem simplifySpace (space : DockSpaceId) :
    Fenced original staged (self.simplifySpaceAfterMutation space) := by
  apply simplifySpaceFloatings
  exact (h.simplifyRoot space).of_eq (simplifyCentral_nodes _ _ _ _)
    (simplifyCentral_roots _ _ _ _) (simplifyCentral_floatings _ _ _ _)

theorem simplifySpacesAfterMove (source target : DockSpaceId) :
    Fenced original staged (self.simplifySpacesAfterMove source target) := by
  simp only [DockGraph.simplifySpacesAfterMove]
  split
  · exact (h.simplifySpace source).simplifySpace target
  · exact h.simplifySpace source

end

/-! What a descent from the top of a space meets is not staged. -/

variable {fuel : Nat} {root : DockNodeId} (h : Fenced original staged self)

include h

variable {item : DockItemId}

/-- A search that starts outside what is staged ends outside it. -/
theorem findItemInSubtreeWithin (hroot : ¬ staged root) {found : DockNodeId × Nat}
    (hfound : self.findItemInSubtreeWithin item fuel root = some found) : ¬ staged found.1 := by
  induction fuel generalizing root with
  | zero => cases hfound
  | succ fuel ih =>
    simp only [findItemInSubtreeWithin] at hfound
    split at hfound
    · cases hfound
    · obtain ⟨index, -, rfl⟩ := map_eq_some_iff.mp hfound
      exact hroot
    · next child hget =>
      exact ih (h.nodes.child hroot hget child (mem_singleton_self child)) hfound
    · next axis children fractions hget =>
      obtain ⟨child, hchild, hbelow⟩ := exists_of_findSome?_eq_some hfound
      exact ih (h.nodes.child hroot hget child hchild) hbelow

theorem findItemInSpace {index : Nat}
    (hfound : self.findItemInSpace space item = some (key, index)) : ¬ staged key := by
  obtain ⟨top, htop, hbelow⟩ := exists_of_findSome?_eq_some hfound
  exact h.findItemInSubtreeWithin (h.tops top htop) hbelow

theorem subtreeContainsWithin (hroot : ¬ staged root)
    (hfound : self.subtreeContainsWithin key fuel root = true) : ¬ staged key := by
  induction fuel generalizing root with
  | zero => cases hfound
  | succ fuel ih =>
    rw [subtreeContainsWithin, Bool.or_eq_true, beq_iff_eq] at hfound
    rcases hfound with rfl | hfound
    · exact hroot
    · split at hfound
      · cases hfound
      · cases hfound
      · next child hget =>
        exact ih (h.nodes.child hroot hget child (mem_singleton_self child)) hfound
      · next axis children fractions hget =>
        obtain ⟨child, hchild, hbelow⟩ := any_eq_true.mp hfound
        exact ih (h.nodes.child hroot hget child hchild) hbelow

theorem rootForNodeInSpace
    (hfound : (self.rootForNodeInSpace space key).isNone ≠ true) : ¬ staged key := by
  cases hroot : self.rootForNodeInSpace space key with
  | none => exact absurd (by rw [hroot]; rfl) hfound
  | some top =>
    exact h.subtreeContainsWithin (h.tops top (mem_of_find?_eq_some hroot)) (find?_some hroot)

theorem findParentInSubtreeWithin {target : DockNodeId} (hroot : ¬ staged root) {parent :
    DockNodeId} (hfound : self.findParentInSubtreeWithin target fuel root = some parent) :
    ¬ staged parent := by
  induction fuel generalizing root with
  | zero => cases hfound
  | succ fuel ih =>
    simp only [findParentInSubtreeWithin] at hfound
    split at hfound
    · cases hfound
    · cases hfound
    · next child hget =>
      split at hfound
      · cases hfound
        exact hroot
      · exact ih (h.nodes.child hroot hget child (mem_singleton_self child)) hfound
    · next axis children fractions hget =>
      split at hfound
      · cases hfound
        exact hroot
      · obtain ⟨child, hchild, hbelow⟩ := exists_of_findSome?_eq_some hfound
        exact ih (h.nodes.child hroot hget child hchild) hbelow

end Fenced

end DockGraph

end OpenGpui.Docking
