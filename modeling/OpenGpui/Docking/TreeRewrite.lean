/-
Replacing the subtree at one node of a tree.  What a tree lists in order splits into
the part of that subtree and the parts around it, which a replacement leaves alone.
-/
import OpenGpui.Docking.Tree

namespace OpenGpui.Docking

open List DockTree

/-- The node with every reference to `old` turned into one to `new`. -/
def DockNode.renameChild (old new : DockNodeId) : DockNode → DockNode
  | .split axis children fractions =>
    .split axis (children.map fun child => if child = old then new else child) fractions
  | .tabs items selected => .tabs items selected
  | .floating child => .floating (if child = old then new else child)

theorem DockNode.renameChild_of_not_mem {old : DockNodeId} (new : DockNodeId) {node : DockNode}
    (h : old ∉ node.children) : node.renameChild old new = node := by
  cases node with
  | split axis children fractions =>
    rw [renameChild, map_congr_left, map_id']
    intro child hchild
    apply if_neg
    rintro rfl
    exact h hchild
  | tabs items selected => rfl
  | floating child =>
    rw [renameChild, if_neg]
    rintro rfl
    exact h (mem_singleton_self _)

theorem DockNode.renameChild_self (old : DockNodeId) (node : DockNode) :
    node.renameChild old old = node := by
  cases node with
  | split axis children fractions =>
    rw [renameChild, map_congr_left, map_id']
    intro child _
    by_cases h : child = old <;> simp [h]
  | tabs items selected => rfl
  | floating child => by_cases h : child = old <;> simp [renameChild, h]

namespace DockTree

/-- The tree with `f` applied to the topmost subtree at `key`. -/
def rewrite (key : DockNodeId) (f : DockTree → DockTree) (tree : DockTree) : DockTree :=
  if tree.id = key then f tree
  else
    match tree with
    | tabs id items selected => tabs id items selected
    | floating id child => floating id (rewrite key f child)
    | split id axis children fractions => split id axis (children.map (rewrite key f)) fractions

section Rewrite

variable {key : DockNodeId} {f : DockTree → DockTree} {tree : DockTree}

theorem rewrite_of_id (h : tree.id = key) : tree.rewrite key f = f tree := by
  rw [rewrite.eq_def, if_pos h]

theorem rewrite_of_not_mem (h : key ∉ tree.ids) : tree.rewrite key f = tree := by
  induction tree using induction with
  | tabs id items selected =>
    rw [rewrite, if_neg]
    rintro rfl
    exact h (id_mem_ids _)
  | floating id child ih =>
    rw [ids_floating, mem_cons, not_or] at h
    have hne : (floating id child).id ≠ key := Ne.symm h.1
    rw [rewrite, if_neg hne, ih h.2]
  | split id axis kids fractions ih =>
    rw [ids_split, mem_cons, not_or] at h
    have hne : (split id axis kids fractions).id ≠ key := Ne.symm h.1
    rw [rewrite, if_neg hne, map_congr_left, map_id']
    intro kid hkid
    exact ih kid hkid fun hmem => h.2 (mem_flatMap.mpr ⟨kid, hkid, hmem⟩)

theorem rewrite_id (tree : DockTree) :
    (tree.rewrite key f).id = if tree.id = key then (f tree).id else tree.id := by
  by_cases h : tree.id = key
  · rw [rewrite_of_id h, if_pos h]
  · rw [if_neg h]
    cases tree with
    | tabs id items selected => rw [rewrite, if_neg h]
    | floating id child => rw [rewrite, if_neg h, id_floating, id_floating]
    | split id axis children fractions => rw [rewrite, if_neg h, id_split, id_split]

/-- Two rewrites of one node in a row. -/
theorem rewrite_rewrite {g : DockTree → DockTree} (hid : ∀ tree, (f tree).id = key)
    (tree : DockTree) : (tree.rewrite key f).rewrite key g = tree.rewrite key (g ∘ f) := by
  induction tree using induction with
  | tabs id items selected =>
    by_cases h : (tabs id items selected).id = key
    · rw [rewrite_of_id h, rewrite_of_id h, rewrite_of_id (hid _)]
      rfl
    · rw [rewrite, if_neg h, rewrite, if_neg h, rewrite, if_neg h]
  | floating id child ih =>
    by_cases h : (floating id child).id = key
    · rw [rewrite_of_id h, rewrite_of_id h, rewrite_of_id (hid _)]
      rfl
    · have h' : (floating id (child.rewrite key f)).id ≠ key := h
      rw [rewrite, if_neg h, rewrite, if_neg h', rewrite, if_neg h, ih]
  | split id axis kids fractions ih =>
    by_cases h : (split id axis kids fractions).id = key
    · rw [rewrite_of_id h, rewrite_of_id h, rewrite_of_id (hid _)]
      rfl
    · have h' : (split id axis (kids.map (rewrite key f)) fractions).id ≠ key := h
      rw [rewrite, if_neg h, rewrite, if_neg h', rewrite, if_neg h, map_map]
      congr 1
      exact map_congr_left fun kid hkid => ih kid hkid

/-- A node above the rewritten one keeps everything but its reference to it. -/
theorem rewrite_node (new : DockNodeId) (hne : tree.id ≠ key)
    (hnew : ∀ child ∈ tree.children, child.id = key → (f child).id = new) :
    (tree.rewrite key f).node = tree.node.renameChild key new := by
  have hchild : ∀ child ∈ tree.children,
      (child.rewrite key f).id = if child.id = key then new else child.id := by
    intro child hmem
    rw [rewrite_id]
    by_cases h : child.id = key
    · rw [if_pos h, if_pos h, hnew child hmem h]
    · rw [if_neg h, if_neg h]
  cases tree with
  | tabs id items selected =>
    rw [rewrite, if_neg hne]
    rfl
  | floating id child =>
    rw [rewrite, if_neg hne, node, hchild child (mem_singleton_self _)]
    rfl
  | split id axis kids fractions =>
    rw [rewrite, if_neg hne]
    simp only [node, DockNode.renameChild, map_map]
    congr 1
    exact map_congr_left hchild

theorem rewrite_children (hne : tree.id ≠ key) :
    (tree.rewrite key f).children = tree.children.map (rewrite key f) := by
  cases tree with
  | tabs id items selected | floating id child | split id axis kids fractions =>
    rw [rewrite, if_neg hne]
    rfl

/-- An arena that holds the replacement, and the nodes around it with the new
reference, holds the rewritten tree. -/
theorem Stored.rewrite {nodes : DockNodes} (new : DockNodeId)
    (haround : ∀ sub ∈ tree.subtrees, sub.id ≠ key →
      nodes.get sub.id = some (sub.node.renameChild key new))
    (hat : ∀ sub ∈ tree.subtrees, sub.id = key → (f sub).id = new ∧ Stored nodes (f sub)) :
    Stored nodes (tree.rewrite key f) := by
  have hall : ∀ low : DockTree, low ∈ tree.subtrees → Stored nodes (low.rewrite key f) := by
    intro low
    induction low using below_induction with
    | step low ih =>
      intro hlow
      by_cases hid : low.id = key
      · rw [rewrite_of_id hid]
        exact (hat low hlow hid).2
      · have hnode := rewrite_node (f := f) new hid fun child hchild hchildId =>
          (hat child (mem_subtrees_trans hlow (child_mem_subtrees hchild)) hchildId).1
        apply Stored.of_children
        · rw [hnode, rewrite_id, if_neg hid]
          exact haround low hlow hid
        · rw [rewrite_children hid]
          intro child hchild
          obtain ⟨original, horiginal, rfl⟩ := mem_map.mp hchild
          exact ih original horiginal (mem_subtrees_trans hlow (child_mem_subtrees horiginal))
  exact hall tree (mem_subtrees_self tree)

end Rewrite

/-- A list read off the nodes of a tree in order. -/
def contents {β : Type} (label : DockTree → List β) (tree : DockTree) : List β :=
  tree.subtrees.flatMap label

variable {β : Type}

theorem contents_eq (label : DockTree → List β) (tree : DockTree) :
    tree.contents label = label tree ++ tree.children.flatMap (contents label) := by
  rw [contents, subtrees_eq, flatMap_cons, flatMap_assoc]
  rfl

theorem ids_eq_contents (tree : DockTree) : tree.ids = tree.contents fun sub => [sub.id] := by
  rw [ids, contents, map_eq_flatMap]

theorem leaves_eq_contents (tree : DockTree) :
    tree.leaves = tree.contents fun sub => sub.leaf.toList := by
  rw [leaves, contents, filterMap_eq_flatMap_toList]

/-- A label that does not look at the children of a node. -/
structure IsShallow {β : Type} (label : DockTree → List β) : Prop where
  floating : ∀ id child child', label (floating id child) = label (floating id child')
  split : ∀ id axis children children' fractions,
    label (split id axis children fractions) = label (split id axis children' fractions)

theorem isShallow_id : IsShallow fun sub : DockTree => [sub.id] :=
  ⟨fun _ _ _ => rfl, fun _ _ _ _ _ => rfl⟩

theorem isShallow_leaf : IsShallow fun sub : DockTree => sub.leaf.toList :=
  ⟨fun _ _ _ => rfl, fun _ _ _ _ _ => rfl⟩

variable {tree : DockTree} {label : DockTree → List β} {f : DockTree → DockTree} {key : DockNodeId}

theorem IsShallow.rewrite (hlabel : IsShallow label) (hne : tree.id ≠ key) :
    label (tree.rewrite key f) = label tree := by
  cases tree with
  | tabs id items selected => rw [rewrite, if_neg hne]
  | floating id child =>
    rw [rewrite, if_neg hne]
    exact hlabel.floating _ _ _
  | split id axis kids fractions =>
    rw [rewrite, if_neg hne]
    exact hlabel.split _ _ _ _ _

variable {kids : List DockTree} {sub : DockTree}

/-- The child that contains a subtree stands between children without its top. -/
theorem children_split_of_mem
    (hnodup : (kids.flatMap ids).Nodup) (hmem : sub ∈ kids.flatMap subtrees) :
    ∃ before kid after, kids = before ++ kid :: after ∧ sub ∈ kid.subtrees ∧
      (∀ other ∈ before, sub.id ∉ other.ids) ∧ ∀ other ∈ after, sub.id ∉ other.ids := by
  obtain ⟨kid, hkid, hsub⟩ := mem_flatMap.mp hmem
  have hkey : sub.id ∈ kid.ids := mem_ids_iff.mpr ⟨sub, hsub, rfl⟩
  obtain ⟨before, after, rfl⟩ := append_of_mem hkid
  rw [flatMap_append, flatMap_cons, nodup_append, nodup_append] at hnodup
  obtain ⟨_, ⟨_, _, hafter⟩, hbefore⟩ := hnodup
  refine ⟨before, kid, after, rfl, hsub, ?_, ?_⟩
  · intro other hother hin
    exact hbefore _ (mem_flatMap.mpr ⟨other, hother, hin⟩) _ (mem_append_left _ hkey) rfl
  · intro other hother hin
    exact hafter _ hkey _ (mem_flatMap.mpr ⟨other, hother, hin⟩) rfl

theorem map_rewrite_of_not_mem (h : ∀ kid ∈ kids, key ∉ kid.ids) :
    kids.map (rewrite key f) = kids := by
  rw [map_congr_left fun kid hkid => rewrite_of_not_mem (h kid hkid), map_id']

/-- A tree lists its subtree at `key` in one piece, and a rewrite changes only that
piece. -/
theorem contents_rewrite (hlabel : IsShallow label)
    (hnodup : tree.ids.Nodup) (hsub : sub ∈ tree.subtrees) :
    ∃ before after, tree.contents label = before ++ sub.contents label ++ after ∧
      ∀ f, (tree.rewrite sub.id f).contents label = before ++ (f sub).contents label ++ after := by
  induction tree using below_induction with
  | step top ih =>
    by_cases hid : top.id = sub.id
    · have heq : top = sub := inj_on_of_nodup_map hnodup (mem_subtrees_self top) hsub hid
      subst heq
      exact ⟨[], [], by simp, fun f => by rw [rewrite_of_id rfl]; simp⟩
    · rw [ids_eq, nodup_cons] at hnodup
      have hbelow : sub ∈ top.children.flatMap subtrees := by
        rw [subtrees_eq, mem_cons] at hsub
        exact hsub.resolve_left fun heq => hid (heq ▸ rfl)
      obtain ⟨front, kid, back, hkids, hkidSub, hfront, hback⟩ :=
        children_split_of_mem hnodup.2 hbelow
      have hkid : kid ∈ top.children := by
        rw [hkids]
        simp
      obtain ⟨before, after, heq, hrewrite⟩ :=
        ih kid hkid ((nodup_flatMap.mp hnodup.2).1 kid hkid) hkidSub
      refine ⟨label top ++ front.flatMap (contents label) ++ before,
        after ++ back.flatMap (contents label), ?_, ?_⟩
      · rw [contents_eq, hkids, flatMap_append, flatMap_cons, heq]
        simp only [append_assoc]
      · intro f
        rw [contents_eq, hlabel.rewrite hid, rewrite_children hid, hkids, map_append,
          map_cons, map_rewrite_of_not_mem hfront, map_rewrite_of_not_mem hback,
          flatMap_append, flatMap_cons, hrewrite]
        simp only [append_assoc]

/-- Whatever hangs below a node of the tree hangs below its top. -/
theorem child_id_mem_below {parent child : DockTree} (hparent : parent ∈ tree.subtrees)
    (hchild : child ∈ parent.children) : child.id ∈ tree.children.flatMap ids := by
  rw [subtrees_eq] at hparent
  rcases mem_cons.mp hparent with rfl | hbelow
  · exact mem_flatMap.mpr ⟨child, hchild, id_mem_ids child⟩
  · obtain ⟨kid, hkid, hmem⟩ := mem_flatMap.mp hbelow
    exact mem_flatMap.mpr ⟨kid, hkid,
      mem_ids_iff.mpr ⟨child, mem_subtrees_trans hmem (child_mem_subtrees hchild), rfl⟩⟩

/-- No two nodes of a tree share a child. -/
theorem parent_unique {first second low high : DockTree} (hnodup : tree.ids.Nodup)
    (hfirst : first ∈ tree.subtrees) (hsecond : second ∈ tree.subtrees)
    (hlow : low ∈ first.children) (hhigh : high ∈ second.children) (hid : low.id = high.id) :
    first = second := by
  -- a child of the top is no grandchild of it
  have htop : ∀ tree : DockTree, tree.ids.Nodup → ∀ kid ∈ tree.children, ∀ parent ∈ kid.subtrees,
      ∀ child ∈ parent.children, ∀ other ∈ tree.children, other.id = child.id → False := by
    intro tree hnodup kid hkid parent hparent child hchild other hother hsame
    rw [ids_eq, nodup_cons] at hnodup
    have hin : child.id ∈ kid.children.flatMap ids := child_id_mem_below hparent hchild
    have hkidIds : child.id ∈ kid.ids := by
      rw [ids_eq]
      exact mem_cons_of_mem _ hin
    have hkidNodup := (nodup_flatMap.mp hnodup.2).1 kid hkid
    have heq : other = kid :=
      eq_of_mem_flatMap_nodup hnodup.2 hother hkid (hsame ▸ id_mem_ids other) hkidIds
    subst heq
    rw [ids_eq, nodup_cons, hsame] at hkidNodup
    exact hkidNodup.1 hin
  induction tree using below_induction with
  | step tree ih =>
    have hbelow := (nodup_cons.mp (ids_eq tree ▸ hnodup)).2
    rw [subtrees_eq] at hfirst hsecond
    rcases mem_cons.mp hfirst with rfl | hfirst <;> rcases mem_cons.mp hsecond with rfl | hsecond
    · rfl
    · obtain ⟨kid, hkid, hmem⟩ := mem_flatMap.mp hsecond
      exact (htop _ hnodup kid hkid _ hmem _ hhigh _ hlow hid).elim
    · obtain ⟨kid, hkid, hmem⟩ := mem_flatMap.mp hfirst
      exact (htop _ hnodup kid hkid _ hmem _ hlow _ hhigh hid.symm).elim
    · obtain ⟨kid, hkid, hmem⟩ := mem_flatMap.mp hfirst
      obtain ⟨other, hother, hmem'⟩ := mem_flatMap.mp hsecond
      have hin := ids_subset_of_mem_subtrees (mem_subtrees_trans hmem (child_mem_subtrees hlow))
        low.id (id_mem_ids low)
      have hin' := ids_subset_of_mem_subtrees
        (mem_subtrees_trans hmem' (child_mem_subtrees hhigh)) high.id (id_mem_ids high)
      obtain rfl := eq_of_mem_flatMap_nodup hbelow hkid hother hin (hid ▸ hin')
      exact ih kid hkid ((nodup_flatMap.mp hbelow).1 kid hkid) hmem hmem'

end DockTree

end OpenGpui.Docking
