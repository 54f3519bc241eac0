/-
What the edits of a graph do to the forest it holds: one lemma for each primitive edit,
each giving the forest of the edited graph.
-/
import OpenGpui.Docking.Forest

namespace OpenGpui.Docking

open List Function KeyMap SlotMap SpaceTrees DockTree.Stored FloatingTree

namespace SpaceTrees

variable {self : SpaceTrees} {sub : DockTree}

/-- A space lists its subtree at `key` in one piece, and a rewrite changes only that
piece. -/
theorem contents_rewrite {β : Type} {label : DockTree → List β}
    (hlabel : DockTree.IsShallow label) (hnodup : self.ids.Nodup) (hsub : sub ∈ self.subtrees) :
    ∃ before after, self.trees.flatMap (DockTree.contents label) =
        before ++ sub.contents label ++ after ∧
      ∀ f, (self.rewrite sub.id f).trees.flatMap (DockTree.contents label) =
        before ++ (f sub).contents label ++ after := by
  obtain ⟨front, tree, back, htrees, hmem, hfront, hback⟩ :=
    DockTree.children_split_of_mem hnodup hsub
  have htree : tree.ids.Nodup := (nodup_flatMap.mp hnodup).1 tree (by simp [htrees])
  obtain ⟨before, after, heq, hrewrite⟩ := DockTree.contents_rewrite hlabel htree hmem
  refine ⟨front.flatMap (DockTree.contents label) ++ before,
    after ++ back.flatMap (DockTree.contents label), ?_, ?_⟩
  · rw [htrees, flatMap_append, flatMap_cons, heq]
    simp only [append_assoc]
  · intro f
    rw [rewrite_trees, htrees, map_append, map_cons, DockTree.map_rewrite_of_not_mem hfront,
      DockTree.map_rewrite_of_not_mem hback, flatMap_append, flatMap_cons, hrewrite]
    simp only [append_assoc]

theorem ids_rewrite (hnodup : self.ids.Nodup) (hsub : sub ∈ self.subtrees) :
    ∃ before after, self.ids = before ++ sub.ids ++ after ∧
      ∀ f, (self.rewrite sub.id f).ids = before ++ (f sub).ids ++ after := by
  have hids : DockTree.contents (fun sub => [sub.id]) = DockTree.ids :=
    funext fun tree => tree.ids_eq_contents.symm
  have h := contents_rewrite DockTree.isShallow_id hnodup hsub
  rw [hids] at h
  exact h

theorem leaves_rewrite (hnodup : self.ids.Nodup) (hsub : sub ∈ self.subtrees) :
    ∃ before after, self.leaves = before ++ sub.leaves ++ after ∧
      ∀ f, (self.rewrite sub.id f).leaves = before ++ (f sub).leaves ++ after := by
  have hleaves : DockTree.contents (fun sub => sub.leaf.toList) = DockTree.leaves :=
    funext fun tree => tree.leaves_eq_contents.symm
  have h := contents_rewrite DockTree.isShallow_leaf hnodup hsub
  rw [hleaves] at h
  exact h

end SpaceTrees

/-- A stored tree beside the forest. -/
structure DockGraph.Detached (graph : DockGraph) (forest : DockForest) (tree : DockTree) :
    Prop where
  stored : tree.Stored graph.nodes
  nodup : tree.ids.Nodup
  fresh : ∀ space, ∀ key ∈ tree.ids, key ∉ (forest space).ids

namespace DockGraph.Detached

variable {self after : DockGraph} {forest : DockForest} {tree : DockTree}

theorem congr (h : self.Detached forest tree)
    (hnodes : ∀ key ∈ tree.ids, after.nodes.get key = self.nodes.get key) :
    after.Detached forest tree :=
  ⟨h.stored.congr hnodes, h.nodup, h.fresh⟩

end DockGraph.Detached

namespace DockGraph.Holds

variable {self after : DockGraph} {forest : DockForest} {space : DockSpaceId}

section

variable (h : self.Holds forest)

include h

/-- Bookkeeping beside the trees leaves the forest as it is. -/
theorem of_eq (hnodes : after.nodes = self.nodes)
    (hroots : after.roots = self.roots) (hfloatings : after.floatings = self.floatings)
    (hcentral : after.centralRegions = self.centralRegions) : after.Holds forest := by
  apply h.congr
  · intro space
    rw [DockGraph.root, DockGraph.root, hroots]
  · intro space
    rw [floatingContainers, floatingContainers, hfloatings]
  · intro space
    rw [centralRegion, centralRegion, hcentral]
  · intro space key _
    rw [hnodes]

variable {f : DockTree → DockTree}

/-- Replacing the subtree at one node: its place gets a tree with the old nodes and
some new ones, and the nodes that referred to it refer to the new top. -/
theorem rewrite (extra : List DockNodeId) {sub : DockTree}
    (hsub : sub ∈ (forest space).subtrees) {new : DockNodeId}
    (hid : (f sub).id = new) (hperm : (f sub).ids.Perm (sub.ids ++ extra)) (hextra : extra.Nodup)
    (hfresh : ∀ other, ∀ key ∈ extra, key ∉ (forest other).ids) (hroot : ∀ other, after.root other =
      (self.root other).map fun key => if key = sub.id then new else key)
    (hcontainers : ∀ other, after.floatingContainers other =
      (self.floatingContainers other).map fun container =>
        { container with node := if container.node = sub.id then new else container.node })
    (hcentral : ∀ other, after.centralRegion other = self.centralRegion other)
    (hnew : (f sub).Stored after.nodes)
    (haround : ∀ other, ∀ low ∈ (forest other).subtrees, low.id ≠ sub.id →
      after.nodes.get low.id = some (low.node.renameChild sub.id new)) :
    after.Holds (forest.rewrite sub.id f) := by
  have htop : ∀ other, ∀ tree ∈ (forest other).trees,
      (tree.rewrite sub.id f).id = if tree.id = sub.id then new else tree.id := by
    intro other tree htree
    rw [DockTree.rewrite_id]
    by_cases hkey : tree.id = sub.id
    · have heq := (h.sub_unique (tree_mem_subtrees htree) hsub hkey).2
      rw [if_pos hkey, if_pos hkey, heq, hid]
    · rw [if_neg hkey, if_neg hkey]
  have hids : ∀ other, other ≠ space → forest.rewrite sub.id f other = forest other := by
    intro other hother
    apply rewrite_of_not_mem
    intro hmem
    exact hother (h.apart hmem (mem_ids_iff.mpr ⟨sub, hsub, rfl⟩))
  have hspace : (forest.rewrite sub.id f space).ids.Perm ((forest space).ids ++ extra) := by
    obtain ⟨before, rest, heq, hrewrite⟩ := ids_rewrite (h.nodup space) hsub
    rw [DockForest.rewrite, hrewrite, heq]
    calc before ++ (f sub).ids ++ rest
        |>.Perm (before ++ (sub.ids ++ extra) ++ rest) := (hperm.append_left before).append_right _
      _ |>.Perm (before ++ sub.ids ++ rest ++ extra) := by
          have hswap : (extra ++ rest).Perm (rest ++ extra) := perm_append_comm
          simp only [append_assoc]
          exact (hswap.append_left _).append_left _
  have hdisjoint : ∀ key ∈ (forest space).ids, key ∉ extra := fun key hkey hmem =>
    hfresh space key hmem hkey
  constructor
  · intro other
    rw [hroot, h.root]
    simp only [DockForest.rewrite, SpaceTrees.rewrite, SpaceTrees.mapTrees]
    cases hrootTree : (forest other).root with
    | none => rfl
    | some tree =>
      have hmem : tree ∈ (forest other).trees := by simp [SpaceTrees.trees, hrootTree]
      simp only [Option.map_some, htop other tree hmem]
  · intro other
    rw [hcontainers, h.floatings]
    simp only [DockForest.rewrite, SpaceTrees.rewrite, SpaceTrees.mapTrees, map_map]
    apply map_congr_left
    intro entry hentry
    have hmem : entry.tree ∈ (forest other).trees := mem_append_right _ (mem_map_of_mem hentry)
    simp only [comp_apply, container, htop other entry.tree hmem]
    rfl
  · intro other
    rw [hcentral, h.central]
    rfl
  · intro other tree htree
    rw [DockForest.rewrite, rewrite_trees] at htree
    obtain ⟨original, horiginal, rfl⟩ := mem_map.mp htree
    have hbelow : ∀ low ∈ original.subtrees, low ∈ (forest other).subtrees := fun low hlow =>
      mem_flatMap.mpr ⟨original, horiginal, hlow⟩
    apply DockTree.Stored.rewrite new
    · exact fun low hlow hne => haround other low (hbelow low hlow) hne
    · intro low hlow hkey
      obtain rfl := (h.sub_unique (hbelow low hlow) hsub hkey).2
      exact ⟨hid, hnew⟩
  · intro other
    by_cases hother : other = space
    · subst hother
      rw [hspace.nodup_iff, nodup_append]
      exact ⟨h.nodup other, hextra, fun key hkey value hvalue heq =>
        hdisjoint key hkey (heq ▸ hvalue)⟩
    · rw [hids other hother]
      exact h.nodup other
  · intro first second key hfirst hsecond
    have hcases : ∀ other, key ∈ (forest.rewrite sub.id f other).ids →
        key ∈ (forest other).ids ∨ (other = space ∧ key ∈ extra) := by
      intro other hmem
      by_cases hother : other = space
      · subst hother
        rw [hspace.mem_iff, mem_append] at hmem
        exact hmem.imp_right fun hin => ⟨rfl, hin⟩
      · rw [hids other hother] at hmem
        exact .inl hmem
    rcases hcases first hfirst with hin | ⟨rfl, hin⟩
    · rcases hcases second hsecond with hin' | ⟨rfl, hin'⟩
      · exact h.apart hin hin'
      · exact (hfresh first key hin' hin).elim
    · rcases hcases second hsecond with hin' | ⟨rfl, hin'⟩
      · exact (hfresh second key hin hin').elim
      · rfl

/-- Overwriting a node changes its subtree; children may only be added, as trees from
beside the forest. -/
theorem setNode {key : DockNodeId} {node : DockNode} (added : Option DockTree)
    (hat : ∀ space, ∀ sub ∈ (forest space).subtrees, sub.id = key → (f sub).id = key ∧
      (f sub).node = node ∧ (f sub).children.Perm (sub.children ++ added.toList))
    (hadded : ∀ tree, added = some tree → self.Detached forest tree) :
    (self.setNode key node).Holds (forest.rewrite key f) := by
  by_cases hmem : ∃ space, ∃ sub ∈ (forest space).subtrees, sub.id = key
  · obtain ⟨space, sub, hsub, rfl⟩ := hmem
    obtain ⟨hid, hnode, hchildren⟩ := hat space sub hsub rfl
    have hnodup : sub.ids.Nodup := by
      obtain ⟨tree, htree, hbelow⟩ := mem_flatMap.mp hsub
      exact DockTree.nodup_of_mem_subtrees (h.tree_nodup htree) hbelow
    have hbelow : ∀ child ∈ sub.children, sub.id ∉ child.ids := by
      intro child hchild hin
      rw [DockTree.ids_eq, nodup_cons] at hnodup
      exact hnodup.1 (mem_flatMap.mpr ⟨child, hchild, hin⟩)
    have hkeep : ∀ tree : DockTree, tree.Stored self.nodes → sub.id ∉ tree.ids →
        tree.Stored (self.setNode sub.id node).nodes := by
      intro tree hstored hnot
      apply hstored.congr
      intro key hkey
      exact get_set_ne _ _ fun heq => hnot (heq ▸ hkey)
    have hsame : (fun key : DockNodeId => if key = sub.id then sub.id else key) = id := by
      funext key
      by_cases hkey : key = sub.id
      · rw [if_pos hkey, hkey, id_eq]
      · rw [if_neg hkey, id_eq]
    apply h.rewrite ((added.toList).flatMap DockTree.ids) hsub hid
    · rw [DockTree.ids_eq, hid, DockTree.ids_eq sub, cons_append]
      apply List.Perm.cons
      rw [← flatMap_append]
      exact hchildren.flatMap_right _
    · cases hsome : added with
      | none => exact nodup_nil
      | some tree => simpa using (hadded tree hsome).nodup
    · intro other key hkey
      obtain ⟨tree, htree, hin⟩ := mem_flatMap.mp hkey
      exact (hadded tree (Option.mem_toList.mp htree)).fresh other key hin
    · intro other
      rw [hsame, Option.map_id]
      rfl
    · intro other
      have hcontainer : (fun container : DockFloatingContainer =>
          { container with node := if container.node = sub.id then sub.id else container.node }) =
          id := by
        funext container
        have heq := congrFun hsame container.node
        simp only [id_eq] at heq ⊢
        rw [heq]
      rw [hcontainer, map_id]
      rfl
    · exact fun other => rfl
    · apply of_children
      · rw [hid, hnode]
        exact get_set_self _ (h.get hsub)
      · intro child hchild
        rw [hchildren.mem_iff, mem_append, Option.mem_toList] at hchild
        rcases hchild with hold | hnew
        · exact hkeep child ((h.sub_stored hsub).child hold) (hbelow child hold)
        · have hdetached := hadded child hnew
          exact hkeep child hdetached.stored fun hin =>
            hdetached.fresh space _ hin (mem_ids_iff.mpr ⟨sub, hsub, rfl⟩)
    · intro other low hlow hne
      rw [DockNode.renameChild_self]
      exact (get_set_ne _ _ (Ne.symm hne)).trans (h.get hlow)
  · have hnot : ∀ space, key ∉ (forest space).ids := by
      intro space hin
      obtain ⟨sub, hsub, hid⟩ := mem_ids_iff.mp hin
      exact hmem ⟨space, sub, hsub, hid⟩
    have hsame : forest.rewrite key f = forest :=
      funext fun space => (forest space).rewrite_of_not_mem f (hnot space)
    rw [hsame]
    refine h.congr (fun _ => rfl) (fun _ => rfl) (fun _ => rfl) ?_
    intro space other hother
    exact get_set_ne _ _ fun heq => hnot space (heq ▸ hother)

/-- Overwriting a stored stack, in the forest or beside it. -/
theorem setTabs {tabs : DockNodeId} {items : List DockItemId}
    {selected : Option DockItemId} (hget : self.nodes.get tabs = some (.tabs items selected))
    (nextItems : List DockItemId) (nextSelected : Option DockItemId) :
    (self.setNode tabs (.tabs nextItems nextSelected)).Holds
      (forest.rewrite tabs fun _ => .tabs tabs nextItems nextSelected) := by
  apply h.setNode none _ (fun tree heq => nomatch heq)
  intro space sub hsub hid
  refine ⟨rfl, rfl, ?_⟩
  have hnode := h.get hsub
  rw [hid, hget] at hnode
  cases sub with
  | tabs id own ownSelected => exact List.Perm.nil
  | floating id child | split id axis kids fractions => cases hnode

/-- A node stored for the first time is beside the forest. -/
theorem insertNode (node : DockNode) : (self.insertNode node).2.Holds forest := by
  refine h.congr (fun _ => rfl) (fun _ => rfl) (fun _ => rfl) ?_
  intro space key hkey
  obtain ⟨sub, hsub, rfl⟩ := mem_ids_iff.mp hkey
  rw [h.get hsub]
  exact get_insert_of_stored _ (h.get hsub)

theorem next_fresh (space : DockSpaceId) : self.nodes.next ∉ (forest space).ids := by
  intro hmem
  obtain ⟨sub, hsub, hid⟩ := mem_ids_iff.mp hmem
  have hget := h.get hsub
  rw [hid, get_next] at hget
  cases hget

theorem insertTabs (items : List DockItemId) (selected : Option DockItemId) :
    (self.insertNode (.tabs items selected)).2.Detached forest
      (.tabs self.nodes.next items selected) where
  stored := by
    apply of_children
    · exact (SlotMap.get_insert _ _ _).trans (if_pos rfl)
    · exact fun low hlow => nomatch hlow
  nodup := by simp
  fresh space key hkey := by
    obtain rfl : key = self.nodes.next := by simpa using hkey
    exact h.next_fresh space

theorem removeRoot (space : DockSpaceId) :
    (self.removeRoot space).Holds (forest.removeRoot space) := by
  have hsub : ({ forest space with root := none } : SpaceTrees).ids.Sublist (forest space).ids := by
    rw [ids, ids, trees, trees, flatMap_append, flatMap_append]
    exact sublist_append_right _ _
  apply h.update
  · exact (get_erase _ _ _).trans (if_pos rfl)
  · intro other hother
    exact (get_erase _ _ _).trans (if_neg (Ne.symm hother))
  · exact h.floatings space
  · exact fun other _ => rfl
  · exact h.central space
  · exact fun other _ => rfl
  · intro tree htree
    exact h.stored space tree (mem_append_right _ (by simpa [trees] using htree))
  · exact fun other _ key _ => rfl
  · exact hsub.nodup (h.nodup space)
  · intro other hother key hkey hmem
    exact hother (h.apart hmem (hsub.subset hkey))

end

theorem setRootForEmptySpace_central (self : DockGraph) (space : DockSpaceId)
    (root : DockNodeId) (other : DockSpaceId) :
    (self.setRootForEmptySpace space root).centralRegion other =
      if other = space then (self.centralRegion space).map (occupyCentral root)
      else self.centralRegion other := by
  simp only [setRootForEmptySpace, setRoot, centralRegion]
  cases hcentral : self.centralRegions[space]? with
  | none =>
    by_cases hother : other = space
    · rw [if_pos hother, hother, hcentral, Option.map_none]
    · rw [if_neg hother]
  | some central =>
    simp only [Option.map_some, occupyCentral]
    by_cases hoccupy : central.keepAliveWhenEmpty && central.node.isNone
    · rw [if_pos hoccupy, if_pos hoccupy, KeyMap.get_insert]
      by_cases hother : other = space
      · rw [if_pos hother, if_pos hother.symm]
      · rw [if_neg hother, if_neg (Ne.symm hother)]
    · rw [if_neg hoccupy, if_neg hoccupy]
      by_cases hother : other = space
      · rw [if_pos hother, hother, hcentral]
      · rw [if_neg hother]

theorem setRootForEmptySpace_nodes (self : DockGraph) (space : DockSpaceId)
    (root : DockNodeId) : (self.setRootForEmptySpace space root).nodes = self.nodes := by
  simp only [setRootForEmptySpace]
  repeat' split
  all_goals rfl

theorem setRootForEmptySpace_floatings (self : DockGraph) (space : DockSpaceId)
    (root : DockNodeId) : (self.setRootForEmptySpace space root).floatings = self.floatings := by
  simp only [setRootForEmptySpace]
  repeat' split
  all_goals rfl

variable (h : self.Holds forest)

include h

variable {tree : DockTree}

theorem setRootForEmptySpace (htree : self.Detached forest tree) (space : DockSpaceId) :
    (self.setRootForEmptySpace space tree.id).Holds (forest.placeRoot space tree) := by
  have hids : ((forest space).placeRoot tree).ids =
      tree.ids ++ ((forest space).floatings.map FloatingTree.tree).flatMap DockTree.ids := by
    rw [ids, trees, placeRoot, flatMap_append, Option.toList_some, flatMap_singleton]
  have hrest : (((forest space).floatings.map FloatingTree.tree).flatMap DockTree.ids).Sublist
      (forest space).ids := by
    rw [ids, trees, flatMap_append]
    exact sublist_append_right _ _
  apply h.update
  · rw [DockGraph.root, DockGraph.setRootForEmptySpace_roots, KeyMap.get_insert, if_pos rfl]
    rfl
  · intro other hother
    rw [DockGraph.root, DockGraph.setRootForEmptySpace_roots, KeyMap.get_insert,
      if_neg (Ne.symm hother)]
    rfl
  · rw [floatingContainers, setRootForEmptySpace_floatings]
    exact h.floatings space
  · intro other _
    rw [floatingContainers, setRootForEmptySpace_floatings]
    rfl
  · rw [setRootForEmptySpace_central, if_pos rfl, h.central]
    rfl
  · intro other hother
    rw [setRootForEmptySpace_central, if_neg hother]
  · intro low hlow
    rw [setRootForEmptySpace_nodes]
    rcases mem_append.mp hlow with hroot | hfloating
    · cases Option.mem_toList.mp hroot
      exact htree.stored
    · exact h.stored space low (mem_append_right _ hfloating)
  · intro other _ key _
    rw [setRootForEmptySpace_nodes]
  · rw [hids, nodup_append]
    exact ⟨htree.nodup, hrest.nodup (h.nodup space), fun key hkey value hvalue heq =>
      htree.fresh space key hkey (heq ▸ hrest.subset hvalue)⟩
  · intro other hother key hkey hmem
    rw [hids, mem_append] at hkey
    rcases hkey with hkey | hkey
    · exact htree.fresh other key hkey hmem
    · exact hother (h.apart hmem (hrest.subset hkey))

/-- Replacing the containers of a space by some of their trees in another order. -/
theorem setContainers (space : DockSpaceId) {floatings : List FloatingTree}
    (hsub : (floatings.map FloatingTree.tree).Subperm
      ((forest space).floatings.map FloatingTree.tree)) :
    ({ self with
      floatings := self.floatings.insert space (floatings.map container) } :
        DockGraph).Holds (forest.setFloatings space floatings) := by
  have htrees : ({ forest space with floatings := floatings } : SpaceTrees).trees.Subperm
      (forest space).trees := (List.Subperm.refl _).append hsub
  obtain ⟨middle, hperm, hsublist⟩ := htrees
  have hids : ({ forest space with floatings := floatings } : SpaceTrees).ids.Subperm
      (forest space).ids :=
    ⟨_, hperm.flatMap_right DockTree.ids, hsublist.flatMap DockTree.ids⟩
  have hmem : ∀ key ∈ ({ forest space with floatings := floatings } : SpaceTrees).ids,
      key ∈ (forest space).ids := fun key hkey => hids.subset hkey
  apply h.update
  · exact h.root space
  · exact fun other _ => rfl
  · rw [floatingContainers, KeyMap.get_insert, if_pos rfl, Option.getD_some]
  · intro other hother
    rw [floatingContainers, KeyMap.get_insert, if_neg (Ne.symm hother)]
    rfl
  · exact h.central space
  · exact fun other _ => rfl
  · intro tree htree
    exact h.stored space tree (hsublist.subset (hperm.mem_iff.mpr htree))
  · exact fun other _ key _ => rfl
  · obtain ⟨between, hbetween, hbelow⟩ := hids
    exact hbetween.nodup_iff.mp (hbelow.nodup (h.nodup space))
  · exact fun other hother key hkey hin => hother (h.apart hin (hmem key hkey))

/-- A tree from beside the forest floats in a new container. -/
theorem pushFloating (htree : self.Detached forest tree) (space : DockSpaceId) (bounds : Bounds) :
    (self.pushFloating space tree.id bounds).Holds (forest.setFloatings space
        ((forest space).floatings ++ [⟨.floating self.nodes.next tree, bounds⟩])) := by
  have hinsert := h.insertNode (.floating tree.id)
  have hfresh : self.nodes.next ∉ tree.ids := by
    intro hmem
    obtain ⟨low, hlow, hid⟩ := DockTree.mem_ids_iff.mp hmem
    have hget := htree.stored low hlow
    rw [hid, get_next] at hget
    cases hget
  have hkept : tree.Stored (self.insertNode (.floating tree.id)).2.nodes := by
    intro low hlow
    exact get_insert_of_stored _ (htree.stored low hlow)
  have hids : ({ forest space with floatings := (forest space).floatings ++
      [⟨.floating self.nodes.next tree, bounds⟩] } : SpaceTrees).ids =
      (forest space).ids ++ (self.nodes.next :: tree.ids) := by
    simp [ids, trees]
  have hnew : ∀ other, ∀ key ∈ self.nodes.next :: tree.ids, key ∉ (forest other).ids := by
    intro other key hkey
    rcases mem_cons.mp hkey with rfl | hin
    · exact h.next_fresh other
    · exact htree.fresh other key hin
  apply hinsert.update
  · exact hinsert.root space
  · exact fun other _ => rfl
  · have hcontainers := hinsert.floatings space
    simp only [DockGraph.pushFloating, pushFloatingContainer]
    rw [floatingContainers, KeyMap.get_insert, if_pos rfl, hcontainers, map_append]
    rfl
  · intro other hother
    simp only [DockGraph.pushFloating, pushFloatingContainer]
    rw [floatingContainers, KeyMap.get_insert, if_neg (Ne.symm hother)]
    rfl
  · exact hinsert.central space
  · exact fun other _ => rfl
  · intro low hlow
    rw [trees, map_append, ← append_assoc] at hlow
    rcases mem_append.mp hlow with hold | hadded
    · exact hinsert.stored space low hold
    · obtain rfl := mem_singleton.mp hadded
      apply of_children
      · exact (SlotMap.get_insert _ _ _).trans (if_pos rfl)
      · intro child hchild
        obtain rfl := mem_singleton.mp hchild
        exact hkept
  · exact fun other _ key _ => rfl
  · rw [hids, nodup_append]
    refine ⟨h.nodup space, nodup_cons.mpr ⟨hfresh, htree.nodup⟩, ?_⟩
    rintro key hkey value hvalue rfl
    exact hnew space key hvalue hkey
  · intro other hother key hkey hin
    rw [hids, mem_append] at hkey
    rcases hkey with hold | hadded
    · exact hother (h.apart hin hold)
    · exact hnew other key hadded hin

/-- Position of a container among the floating trees. -/
theorem findIdx_container {floating : DockNodeId} {index : Nat}
    (hfind : (self.floatingContainers space).findIdx? (fun entry => entry.node == floating) =
      some index) :
    ∃ entry, (forest space).floatings[index]? = some entry ∧ entry.tree.id = floating ∧
      entry ∈ (forest space).floatings := by
  rw [h.floatings, findIdx?_map, findIdx?_eq_some_iff_getElem] at hfind
  obtain ⟨hlt, hnode, _⟩ := hfind
  refine ⟨(forest space).floatings[index], getElem?_eq_getElem hlt, ?_, getElem_mem hlt⟩
  simpa [container] using hnode

/-- A floating container gives up its tree. -/
theorem takeFloatingChildFromSpace {floating child : DockNodeId}
    (htake : self.takeFloatingChildFromSpace space floating = some (child, after)) :
    ∃ index tree bounds, (forest space).floatings[index]? = some ⟨.floating floating tree, bounds⟩ ∧
      tree.id = child ∧
      after.Holds (forest.setFloatings space ((forest space).floatings.eraseIdx index)) ∧
      after.Detached (forest.setFloatings space ((forest space).floatings.eraseIdx index)) tree ∧
      after.nodes = self.nodes := by
  rw [DockGraph.takeFloatingChildFromSpace] at htake
  split at htake
  · next stored hget =>
    split at htake
    · cases htake
    · next containers hcontainers =>
      split at htake
      · cases htake
      · next index hindex =>
        obtain ⟨rfl, rfl⟩ := htake
        have hself : self.floatingContainers space = containers := by
          rw [floatingContainers, hcontainers, Option.getD_some]
        rw [← hself] at hindex
        obtain ⟨⟨top, bounds⟩, hentry, hid, hmem⟩ := h.findIdx_container hindex
        have htop : top ∈ (forest space).trees := mem_append_right _ (mem_map_of_mem hmem)
        have hnode := h.get (tree_mem_subtrees htop)
        rw [hid, hget, Option.some.injEq] at hnode
        cases top with
        | tabs id items selected | split id axis kids fractions => cases hnode
        | floating id tree =>
          have hkey : floating = id := hid.symm
          subst hkey
          have hsub : (((forest space).floatings.eraseIdx index).map FloatingTree.tree).Subperm
              ((forest space).floatings.map FloatingTree.tree) :=
            ((eraseIdx_sublist _ _).map _).subperm
          have hafter := h.setContainers space hsub
          rw [← eraseIdx_map, ← h.floatings, hself] at hafter
          refine ⟨index, tree, bounds, hentry, (DockNode.floating.inj hnode).symm, hafter, ?_, rfl⟩
          have hnodup := h.tree_nodup htop
          rw [DockTree.ids_floating, nodup_cons] at hnodup
          refine ⟨(h.stored space _ htop).child (mem_singleton_self _), hnodup.2, ?_⟩
          intro other key hkey hin
          have hbelow : key ∈ (DockTree.floating floating tree).ids := by
            rw [DockTree.ids_floating]
            exact mem_cons_of_mem _ hkey
          have hspace : key ∈ (forest space).ids := mem_flatMap.mpr ⟨_, htop, hbelow⟩
          by_cases hother : other = space
          · -- the container stood only once in the list
            subst hother
            rw [DockForest.setFloatings, update_self] at hin
            have hperm : ((forest other).floatings.map FloatingTree.tree).Perm
                (DockTree.floating floating tree ::
                  ((forest other).floatings.eraseIdx index).map FloatingTree.tree) := by
              have hlt : index < (forest other).floatings.length :=
                (List.getElem?_eq_some_iff.mp hentry).1
              have hcons := (List.getElem_cons_eraseIdx_perm hlt).symm.map FloatingTree.tree
              rwa [(List.getElem?_eq_some_iff.mp hentry).2] at hcons
            have hids := h.nodup other
            rw [ids, trees, List.flatMap_append] at hids
            have hall := ((hperm.flatMap_right DockTree.ids).append_left
              ((forest other).root.toList.flatMap DockTree.ids)).nodup_iff.mp hids
            rw [ids, trees, List.flatMap_append, mem_append] at hin
            obtain ⟨_, hrest, hapart⟩ := nodup_append.mp hall
            rcases hin with hroot | hfloating
            · exact hapart key hroot key (mem_append_left _ hbelow) rfl
            · exact (nodup_append.mp hrest).2.2 key hbelow key hfloating rfl
          · rw [DockForest.setFloatings, update_of_ne hother] at hin
            exact hother (h.apart hin hspace)
  · cases htake

end DockGraph.Holds

end OpenGpui.Docking
