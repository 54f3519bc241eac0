/-
The insertion of a leaf below an internal node: the descent ends, the nodes of its path
grow by the new bounds, and the tree has the new leaf besides what it had.
-/
import OpenGpui.Scene.BoundsTreeSearch

namespace OpenGpui.Scene

open List Forest Option Nat

open BoundsTree

theorem swapAt_perm {α : Type} (entries : List α) (first second : Nat) :
    (swapAt entries first second).Perm entries := by
  rw [swapAt]
  split
  · next one two hone htwo =>
      obtain ⟨hfirst, rfl⟩ := List.getElem?_eq_some_iff.mp hone
      obtain ⟨hsecond, rfl⟩ := List.getElem?_eq_some_iff.mp htwo
      exact set_set_perm hfirst hsecond
  · exact List.Perm.refl _

theorem swapAt_ite_perm {α : Type} (condition : Prop) [Decidable condition]
    (entries : List α) (first second : Nat) :
    (if condition then swapAt entries first second else entries).Perm entries := by
  by_cases h : condition
  · rw [if_pos h]
    exact swapAt_perm _ _ _
  · rw [if_neg h]

section Growing

variable {U : Type} [AddCommGroup U] [LinearOrder U] (bounds : Bounds U) (order : Nat)

/-- What an insertion makes of a node on its path. -/
structure Grown (node grown : Node U) : Prop where
  keeps : Within node.bounds grown.bounds
  covers : Within bounds grown.bounds
  within : Within grown.bounds (node.bounds.union bounds)
  maxOrder : grown.maxOrder = max node.maxOrder order

variable {bounds order} {grown : Node U}

theorem Grown.trans {node middle : Node U} (h : Grown bounds order node middle)
    (h' : Grown bounds order middle grown) : Grown bounds order node grown where
  keeps := h.keeps.trans h'.keeps
  covers := h'.covers
  within := h'.within.trans (union_within h.within (within_union_right _ _))
  maxOrder := by rw [h'.maxOrder, h.maxOrder, max_assoc, max_self]

/-- What was inside the node is inside the grown one, whether it grew itself or not. -/
theorem Grown.mono {node child child' : Node U} (h : Grown bounds order node grown)
    (hchild : Grown bounds order child child') (hwithin : Within child.bounds node.bounds)
    (hle : child.maxOrder ≤ node.maxOrder) :
    Within child'.bounds grown.bounds ∧ child'.maxOrder ≤ grown.maxOrder := by
  constructor
  · exact hchild.within.trans (union_within (hwithin.trans h.keeps) h.covers)
  · rw [hchild.maxOrder, h.maxOrder]
    exact max_le_max hle (le_refl _)

theorem Grown.mono_left {node child : Node U} (h : Grown bounds order node grown)
    (hwithin : Within child.bounds node.bounds) (hle : child.maxOrder ≤ node.maxOrder) :
    Within child.bounds grown.bounds ∧ child.maxOrder ≤ grown.maxOrder := by
  constructor
  · exact hwithin.trans h.keeps
  · rw [h.maxOrder]
    exact hle.trans (le_max_left _ _)

variable (updatedChild : Option Nat)

theorem growNode_grown (node : Node U) :
    Grown bounds order node (growNode bounds order updatedChild node) := by
  have hbounds : (growNode bounds order updatedChild node).bounds = node.bounds.union bounds := by
    unfold growNode
    split <;> rfl
  constructor
  · rw [hbounds]
    exact within_union_left _ _
  · rw [hbounds]
    exact within_union_right _ _
  · rw [hbounds]
    exact Within.refl _
  · unfold growNode
    by_cases hlt : node.maxOrder < order
    · rw [if_pos hlt, max_eq_right hlt.le]
    · rw [if_neg hlt, max_eq_left (le_of_not_gt hlt)]

theorem growNode_kind {node : Node U} {children : List Nat}
    (hkind : node.kind = .internal children) :
    ∃ children', (growNode bounds order updatedChild node).kind = .internal children' ∧
      children'.Perm children := by
  unfold growNode
  by_cases hlt : node.maxOrder < order
  · rw [if_pos hlt]
    cases updatedChild with
    | none => exact ⟨children, hkind, List.Perm.refl _⟩
    | some child =>
      simp only [hkind, NodeKind.mapChildren]
      cases children.findIdx? (· == child) with
      | none => exact ⟨children, rfl, List.Perm.refl _⟩
      | some pos => exact ⟨_, rfl, swapAt_perm _ _ _⟩
  · rw [if_neg hlt]
    exact ⟨children, hkind, List.Perm.refl _⟩

/-- The first node of the path grows last. -/
theorem exists_propagate_append (path : List Nat) (index : Nat) (updatedChild : Option Nat)
    (nodes : List (Node U)) :
    ∃ below, propagate bounds order (path ++ [index]) updatedChild nodes =
      (propagate bounds order path updatedChild nodes).modify index
        (growNode bounds order below) := by
  induction path generalizing updatedChild nodes with
  | nil => exact ⟨updatedChild, rfl⟩
  | cons first rest ih =>
    obtain ⟨below, hbelow⟩ :=
      ih (some first) (nodes.modify first (growNode bounds order updatedChild))
    exact ⟨below, hbelow⟩

end Growing

variable {U : Type} [AddCommGroup U] [LinearOrder U] {nodes : List (Node U)} {index : Nat}

theorem StoredTree.lt_length {tree : Nat × Forest Nat}
    (h : StoredTree nodes tree) (hindex : index ∈ indicesOf tree) :
    index < nodes.length := by
  obtain ⟨_, node, _, hnode, _, _⟩ := h.dominates hindex
  exact (List.getElem?_eq_some_iff.mp hnode).1

theorem storedTree_leaf {leaf : Node U}
    (h : IsLeaf nodes index leaf) : StoredTree nodes (index, .nil) :=
  ⟨⟨leaf, h.1, .inl ⟨leaf.maxOrder, h.2, rfl, rfl⟩⟩, trivial⟩

def pairForest (first second : Nat) : Forest Nat := .cons first .nil (.cons second .nil .nil)

variable {sibling : Node U}

theorem storedTree_pair {siblingIndex newLeaf order : Nat} {bounds : Bounds U}
    (hpair : nodes[index]? = some (pairNode sibling siblingIndex bounds order newLeaf))
    (hsibling : IsLeaf nodes siblingIndex sibling)
    (hnew : IsLeaf nodes newLeaf ⟨bounds, order, .leaf order⟩) :
    StoredTree nodes (index, pairForest siblingIndex newLeaf) := by
  have hbelow : Stored nodes (pairForest siblingIndex newLeaf) :=
    ⟨storedTree_leaf hsibling, storedTree_leaf hnew, trivial⟩
  refine ⟨⟨_, hpair, .inr ?_⟩, hbelow⟩
  have hchildren : (if sibling.maxOrder < order then [siblingIndex, newLeaf]
      else [newLeaf, siblingIndex]).Perm [siblingIndex, newLeaf] := by
    by_cases hlt : sibling.maxOrder < order
    · rw [if_pos hlt]
    · rw [if_neg hlt]
      exact List.Perm.swap _ _ _
  refine ⟨_, rfl, ?_, hchildren, ?_⟩
  · intro hnil
    have hlength := hchildren.length_eq
    rw [hnil] at hlength
    cases hlength
  · intro child hchild
    have hmem := hchildren.subset hchild
    rw [mem_cons, mem_singleton] at hmem
    rcases hmem with rfl | rfl
    · exact ⟨sibling, hsibling.1, within_union_left _ _, le_max_left _ _⟩
    · exact ⟨_, hnew.1, within_union_right _ _, le_max_right _ _⟩

/-- What the insertion of a leaf makes of the tree it is inserted into. -/
structure Inserted (bounds : Bounds U) (order newLeaf : Nat) (nodes after : List (Node U))
    (tree : Nat × Forest Nat) (below : Forest Nat) : Prop where
  stored : StoredTree after (tree.1, below)
  grown : ∃ node grown, nodes[tree.1]? = some node ∧ after[tree.1]? = some grown ∧
    Grown bounds order node grown
  indices : ∃ fresh : List Nat, (∀ index ∈ fresh, nodes.length ≤ index) ∧ fresh.Nodup ∧
    (indicesOf (tree.1, below)).Perm (newLeaf :: (fresh ++ indicesOf tree))
  frame : ∀ index < nodes.length, index ∉ indicesOf tree → after[index]? = nodes[index]?
  leaves : ∀ index leaf, IsLeaf after index leaf ↔ IsLeaf nodes index leaf

variable {children : List Nat}

/-- A node of the path: one of the trees below it has changed, and the others stay. -/
theorem inserted_of_changed {bounds : Bounds U} {order newLeaf : Nat}
    {after : List (Node U)} {below : Forest Nat} {node grown : Node U}
    {fresh : List Nat} {old others : List (Nat × Forest Nat)}
    {changed : Nat × Forest Nat} (htree : StoredTree nodes (index, below))
    (hnodup : (indicesOf (index, below)).Nodup) (hnode : nodes[index]? = some node)
    (hafter : after[index]? = some grown) (hgrown : Grown bounds order node grown)
    (hkind : grown.kind = .internal children) (hold : below.trees.Perm (old ++ others))
    (hperm : children.Perm (changed.1 :: others.map Prod.fst)) (hchanged : StoredTree after changed)
    (hbounded : ∃ childNode, after[changed.1]? = some childNode ∧
      Within childNode.bounds grown.bounds ∧ childNode.maxOrder ≤ grown.maxOrder)
    (hfresh : ∀ index ∈ fresh, nodes.length ≤ index) (hfreshNodup : fresh.Nodup)
    (hindices : (indicesOf changed).Perm (newLeaf :: (fresh ++ old.flatMap indicesOf)))
    (hframe : ∀ i < nodes.length, i ≠ index → i ∉ old.flatMap indicesOf → after[i]? = nodes[i]?)
    (hleaves : ∀ index leaf, IsLeaf after index leaf ↔ IsLeaf nodes index leaf) :
    Inserted bounds order newLeaf nodes after (index, below) (.ofTrees (changed :: others)) := by
  have hflatten : below.flatten.Perm (old.flatMap indicesOf ++ others.flatMap indicesOf) := by
    rw [Forest.flatten_eq_flatMap, ← flatMap_append]
    exact hold.flatMap_right _
  have hdisjoint : (index :: (old.flatMap indicesOf ++ others.flatMap indicesOf)).Nodup :=
    (hflatten.cons index).nodup_iff.mp hnodup
  have hothers : ∀ tree ∈ others, StoredTree nodes tree := fun tree hmem =>
    stored_iff.mp htree.2 tree (hold.symm.subset (mem_append_right _ hmem))
  have hsame : ∀ tree ∈ others, ∀ i ∈ indicesOf tree, after[i]? = nodes[i]? := by
    intro tree hmem i hi
    have hin : i ∈ others.flatMap indicesOf := mem_flatMap.mpr ⟨tree, hmem, hi⟩
    rw [nodup_cons] at hdisjoint
    apply hframe i ((hothers tree hmem).lt_length hi)
    · rintro rfl
      exact hdisjoint.1 (mem_append_right _ hin)
    · intro hinOld
      exact (nodup_append.mp hdisjoint.2).2.2 i hinOld i hin rfl
  constructor
  · constructor
    · refine ⟨grown, hafter, .inr ⟨children, hkind, ?_, ?_, ?_⟩⟩
      · intro hnil
        have hlength := hperm.length_eq
        rw [hnil] at hlength
        cases hlength
      · rw [level, trees_ofTrees]
        exact hperm
      · intro child hchild
        rcases mem_cons.mp (hperm.subset hchild) with rfl | hother
        · exact hbounded
        · obtain ⟨tree, hmem, rfl⟩ := mem_map.mp hother
          obtain ⟨top, hnode', hkind'⟩ := htree.1
          rw [hnode, some.injEq] at hnode'
          subst hnode'
          have hbelow : tree ∈ below.trees := hold.symm.subset (mem_append_right _ hmem)
          rcases hkind' with ⟨_, _, _, hnil⟩ | ⟨_, _, _, hlevel, hchildren⟩
          · rw [show below = .nil from hnil] at hbelow
            cases hbelow
          · obtain ⟨childNode, hchildNode, hwithin, hle⟩ := hchildren tree.1
              (hlevel.symm.subset (mem_level_iff.mpr ⟨_, hbelow⟩))
            refine ⟨childNode, ?_, hgrown.mono_left hwithin hle⟩
            rw [hsame tree hmem _ mem_cons_self, hchildNode]
    · rw [stored_iff, trees_ofTrees, forall_mem_cons]
      exact ⟨hchanged, fun tree hmem => (hothers tree hmem).congr (hsame tree hmem)⟩
  · exact ⟨node, grown, hnode, hafter, hgrown⟩
  · refine ⟨fresh, hfresh, hfreshNodup, ?_⟩
    have hall : indicesOf (index, ofTrees (changed :: others)) =
        index :: (indicesOf changed ++ others.flatMap indicesOf) := by
      rw [indicesOf, flatten_ofTrees]
      rfl
    have htop : indicesOf (index, below) = index :: below.flatten := rfl
    rw [hall, htop, perm_iff_count]
    intro i
    have hcount := hindices.count_eq i
    have hcountBelow := hflatten.count_eq i
    simp only [count_cons, count_append] at hcount hcountBelow ⊢
    omega
  · intro i hlt hnot
    apply hframe i hlt
    · rintro rfl
      exact hnot mem_cons_self
    · intro hinOld
      exact hnot (mem_cons_of_mem _ (hflatten.symm.subset (mem_append_left _ hinOld)))
  · exact hleaves

omit [AddCommGroup U] [LinearOrder U] in
theorem not_isLeaf_of_internal {node : Node U} (hnode : nodes[index]? = some node)
    (hkind : node.kind = .internal children) (leaf : Node U) : ¬IsLeaf nodes index leaf := by
  rintro ⟨hleaf, hleafKind⟩
  rw [hnode, some.injEq] at hleaf
  subst hleaf
  rw [hkind] at hleafKind
  cases hleafKind

omit [AddCommGroup U] [LinearOrder U] in
/-- The leaves stay when what changes is internal before and after. -/
theorem isLeaf_iff_of_changed {after : List (Node U)} (h : ∀ index, after[index]? = nodes[index]? ∨
      (∀ leaf, ¬IsLeaf after index leaf) ∧ ∀ leaf, ¬IsLeaf nodes index leaf) (index : Nat)
    (leaf : Node U) : IsLeaf after index leaf ↔ IsLeaf nodes index leaf := by
  rcases h index with hsame | ⟨hafter, hbefore⟩
  · rw [IsLeaf, IsLeaf, hsame]
  · exact iff_of_false (hafter leaf) (hbefore leaf)

omit [AddCommGroup U] [LinearOrder U] in
theorem isLeaf_iff_append_internal (nodes : List (Node U)) (node : Node U) (hkind :
    node.kind = .internal children) :
    ∀ index leaf, IsLeaf (nodes ++ [node]) index leaf ↔ IsLeaf nodes index leaf := by
  apply isLeaf_iff_of_changed
  intro i
  rcases lt_trichotomy i nodes.length with hlt | rfl | hgt
  · exact .inl (getElem?_append_left hlt)
  · refine .inr ⟨not_isLeaf_of_internal getElem?_concat_length hkind, ?_⟩
    rintro leaf ⟨hleaf, _⟩
    rw [getElem?_eq_none (le_refl _)] at hleaf
    cases hleaf
  · left
    rw [getElem?_eq_none (by simpa using succ_le_of_lt hgt), getElem?_eq_none hgt.le]

section Placing

variable {bounds : Bounds U} {order newLeaf index : Nat} {nodes after : List (Node U)}
  {below : Forest Nat} {node grown : Node U} {children children' : List Nat}

variable (htree : StoredTree nodes (index, below))

include htree

variable (hnodup : (indicesOf (index, below)).Nodup)

include hnodup

variable (hnode : nodes[index]? = some node)

include hnode

variable (hkind : node.kind = .internal children)

include hkind

section

variable (hnew : IsLeaf nodes newLeaf ⟨bounds, order, .leaf order⟩)

include hnew

/-- The last node of the path has room for the new leaf. -/
theorem inserted_room (hafter : after[index]? = some grown) (hgrown : Grown bounds order node grown)
    (hgrownKind : grown.kind = .internal children')
    (hchildren : children'.Perm (newLeaf :: below.level))
    (hother : ∀ i ≠ index, after[i]? = nodes[i]?) :
    Inserted bounds order newLeaf nodes after (index, below)
      (.ofTrees ((newLeaf, .nil) :: below.trees)) := by
  have hleaves := isLeaf_iff_of_changed fun i => by
    by_cases hi : i = index
    · rw [hi]
      exact .inr ⟨not_isLeaf_of_internal hafter hgrownKind, not_isLeaf_of_internal hnode hkind⟩
    · exact .inl (hother i hi)
  have hnewAfter := (hleaves newLeaf _).mpr hnew
  have hold : below.trees.Perm ([] ++ below.trees) := List.Perm.refl _
  have hindices : (indicesOf (newLeaf, .nil)).Perm
      (newLeaf :: ([] ++ flatMap indicesOf [])) := List.Perm.refl _
  exact inserted_of_changed htree hnodup hnode hafter hgrown hgrownKind hold hchildren
    (storedTree_leaf hnewAfter)
    ⟨_, hnewAfter.1, hgrown.covers, by rw [hgrown.maxOrder]; exact le_max_right _ _⟩
    (by simp) nodup_nil hindices (fun i _ hi _ => hother i hi) hleaves

/-- The last node of the path is full: its best child and the new leaf go below a new
node. -/
theorem inserted_full {siblingIndex : Nat} {sibling : Node U} {others : List (Nat × Forest Nat)}
    (hsibling : IsLeaf nodes siblingIndex sibling)
    (hsiblingWithin : Within sibling.bounds node.bounds)
    (hsiblingOrder : sibling.maxOrder ≤ node.maxOrder)
    (hbelow : below.trees.Perm ((siblingIndex, .nil) :: others))
    (hafter : after[index]? = some grown) (hgrown : Grown bounds order node grown)
    (hgrownKind : grown.kind = .internal children')
    (hchildren : children'.Perm (nodes.length :: others.map Prod.fst))
    (hpair : after[nodes.length]? = some (pairNode sibling siblingIndex bounds order newLeaf))
    (hother : ∀ i ≠ index, i ≠ nodes.length → after[i]? = nodes[i]?) :
    Inserted bounds order newLeaf nodes after (index, below)
      (.ofTrees ((nodes.length, pairForest siblingIndex newLeaf) :: others)) := by
  have hleaves := isLeaf_iff_of_changed fun i => by
    by_cases hi : i = index
    · rw [hi]
      exact .inr ⟨not_isLeaf_of_internal hafter hgrownKind, not_isLeaf_of_internal hnode hkind⟩
    · by_cases hi' : i = nodes.length
      · rw [hi']
        refine .inr ⟨not_isLeaf_of_internal hpair rfl, ?_⟩
        rintro leaf ⟨hleaf, _⟩
        rw [getElem?_eq_none (le_refl _)] at hleaf
        cases hleaf
      · exact .inl (hother i hi hi')
  have hpairGrown : Grown bounds order sibling
      (pairNode sibling siblingIndex bounds order newLeaf) :=
    ⟨within_union_left _ _, within_union_right _ _, .refl _, rfl⟩
  have hold : below.trees.Perm ([(siblingIndex, .nil)] ++ others) := hbelow
  have hindices : (indicesOf (nodes.length, pairForest siblingIndex newLeaf)).Perm
      (newLeaf :: ([nodes.length] ++ flatMap indicesOf [(siblingIndex, nil)])) :=
    @perm_append_comm _ [nodes.length, siblingIndex] [newLeaf]
  exact inserted_of_changed htree hnodup hnode hafter hgrown hgrownKind hold hchildren
    (storedTree_pair hpair ((hleaves _ _).mpr hsibling) ((hleaves _ _).mpr hnew)) ⟨_, hpair,
    hgrown.mono hpairGrown hsiblingWithin hsiblingOrder⟩ (by simp) (by simp) hindices
    (fun i hlt hi _ => hother i hi (Nat.ne_of_lt hlt)) hleaves

end

/-- A node of the path above the last one. -/
theorem inserted_above {mid : List (Node U)} {child : Nat} {childNode : Node U}
    {lower lower' : Forest Nat} {others : List (Nat × Forest Nat)}
    (hnotin : newLeaf ∉ indicesOf (index, below))
    (hperm : children.Perm below.level) (hbelow : below.trees.Perm ((child, lower) :: others))
    (hchild : nodes[child]? = some childNode) (hwithin : Within childNode.bounds node.bounds)
    (hle : childNode.maxOrder ≤ node.maxOrder)
    (h : Inserted bounds order newLeaf nodes mid (child, lower) lower')
    (hafter : after[index]? = some grown) (hgrown : Grown bounds order node grown)
    (hgrownKind : grown.kind = .internal children') (hchildren : children'.Perm children)
    (hother : ∀ i ≠ index, after[i]? = mid[i]?) :
    Inserted bounds order newLeaf nodes after (index, below)
      (.ofTrees ((child, lower') :: others)) := by
  have hlt : index < nodes.length := (List.getElem?_eq_some_iff.mp hnode).1
  have hinner : ∀ i ∈ indicesOf (child, lower), i ∈ below.flatten := by
    intro i hi
    exact mem_flatten_iff.mpr ⟨_, hbelow.symm.subset mem_cons_self, hi⟩
  have hnotBelow : index ∉ below.flatten := (nodup_cons.mp hnodup).1
  obtain ⟨fresh, hfresh, hfreshNodup, hindices⟩ := h.indices
  have hchangedNe : ∀ i ∈ indicesOf (child, lower'), i ≠ index := by
    rintro i hi rfl
    rcases mem_cons.mp (hindices.subset hi) with rfl | hi'
    · exact hnotin mem_cons_self
    · rcases mem_append.mp hi' with hnewer | holder
      · exact absurd hlt (not_lt.mpr (hfresh i hnewer))
      · exact hnotBelow (hinner i holder)
  have hleaves : ∀ i leaf, IsLeaf after i leaf ↔ IsLeaf nodes i leaf := by
    have hmid : mid[index]? = some node := by
      rw [h.frame index hlt fun hin => hnotBelow (hinner index hin), hnode]
    intro i leaf
    rw [← h.leaves]
    apply isLeaf_iff_of_changed
    intro i
    by_cases hi : i = index
    · rw [hi]
      exact .inr ⟨not_isLeaf_of_internal hafter hgrownKind, not_isLeaf_of_internal hmid hkind⟩
    · exact .inl (hother i hi)
  have hbounded : ∃ childNode, after[child]? = some childNode ∧
      Within childNode.bounds grown.bounds ∧ childNode.maxOrder ≤ grown.maxOrder := by
    obtain ⟨before, childGrown, hbefore, hmid, hchildGrown⟩ := h.grown
    rw [hchild, some.injEq] at hbefore
    subst hbefore
    refine ⟨childGrown, ?_, hgrown.mono hchildGrown hwithin hle⟩
    rw [hother child (hchangedNe child mem_cons_self), hmid]
  have hold : below.trees.Perm ([(child, lower)] ++ others) := hbelow
  have hindices' : (indicesOf (child, lower')).Perm
      (newLeaf :: (fresh ++ flatMap indicesOf [(child, lower)])) := by
    rw [flatMap_singleton]
    exact hindices
  have hlevel : children'.Perm (child :: others.map Prod.fst) :=
    (hchildren.trans hperm).trans (hbelow.map Prod.fst)
  apply inserted_of_changed htree hnodup hnode hafter hgrown hgrownKind hold hlevel
    (h.stored.congr fun i hi => hother i (hchangedNe i hi)) hbounded hfresh hfreshNodup
    hindices' _ hleaves
  intro i hi hne hnot
  rw [flatMap_singleton] at hnot
  rw [hother i hne, h.frame i hi hnot]

end Placing

variable {nodes : List (Node U)} {bounds : Bounds U} {children : List Nat}

theorem bestChildFrom_spec {rest : List Nat} {pos : Nat} {best : BestChild U}
    (hstored : ∀ child ∈ rest, ∃ node, nodes[child]? = some node)
    (hrest : children.drop pos = rest) (hbest : children[best.pos]? = some best.index) :
    ∃ found, bestChildFrom nodes bounds rest pos best = some found ∧
      children[found.pos]? = some found.index := by
  induction rest generalizing pos best with
  | nil => exact ⟨best, rfl, hbest⟩
  | cons child rest ih =>
    rw [forall_mem_cons] at hstored
    obtain ⟨⟨node, hnode⟩, hlater⟩ := hstored
    have hchild : children[pos]? = some child := by
      have hhead := congrArg (·[0]?) hrest
      rwa [getElem?_drop] at hhead
    have hdrop : children.drop (pos + 1) = rest := by
      rw [← tail_drop, hrest, tail_cons]
    rw [bestChildFrom, hnode]
    apply ih hlater hdrop
    split
    · exact hchild
    · exact hbest

theorem bestChild_spec (hne : children ≠ [])
    (hstored : ∀ child ∈ children, ∃ node, nodes[child]? = some node) :
    ∃ found, bestChild nodes bounds children = some found ∧
      children[found.pos]? = some found.index := by
  cases children with
  | nil => exact absurd rfl hne
  | cons child rest =>
    rw [forall_mem_cons] at hstored
    obtain ⟨⟨node, hnode⟩, hlater⟩ := hstored
    rw [bestChild, hnode]
    exact bestChildFrom_spec hlater rfl rfl

/-- The entry at a place and the others. -/
theorem perm_of_getElem? {pos child : Nat}
    (h : children[pos]? = some child) : children.Perm (child :: children.eraseIdx pos) := by
  obtain ⟨hlt, rfl⟩ := List.getElem?_eq_some_iff.mp h
  exact (List.getElem_cons_eraseIdx_perm hlt).symm

variable {order index : Nat} {below : Forest Nat} {node : Node U} {newLeaf : Nat}

/-- The last node of the path takes the new leaf. -/
theorem exists_placed {others : List (Nat × Forest Nat)}
    {bestIndex bestPos : Nat} (hnew : IsLeaf nodes newLeaf ⟨bounds, order, .leaf order⟩)
    (htree : StoredTree nodes (index, below)) (hnodup : (indicesOf (index, below)).Nodup)
    (hnode : nodes[index]? = some node) (hkind : node.kind = .internal children)
    (hperm : children.Perm below.level) (hpos : children[bestPos]? = some bestIndex)
    (hbelow : below.trees.Perm ((bestIndex, .nil) :: others))
    (hsibling : IsLeaf nodes bestIndex sibling) (hwithin : Within sibling.bounds node.bounds)
    (hle : sibling.maxOrder ≤ node.maxOrder) :
    ∃ placed below', placeLeaf nodes ⟨[index], index, bestIndex, bestPos⟩ bounds order newLeaf =
        some placed ∧
      Inserted bounds order newLeaf nodes (placed.modify index (growNode bounds order none))
        (index, below) below' := by
  have hlt : index < nodes.length := (List.getElem?_eq_some_iff.mp hnode).1
  have hposLt : bestPos < children.length := (List.getElem?_eq_some_iff.mp hpos).1
  rw [placeLeaf, hnode, hsibling.1]
  simp only [hkind]
  by_cases hroom : children.length < maxChildren
  · rw [if_pos hroom]
    refine ⟨_, .ofTrees ((newLeaf, .nil) :: below.trees), rfl, ?_⟩
    have hpushed := swapAt_ite_perm (order ≤ node.maxOrder) (children ++ [newLeaf])
      ((children ++ [newLeaf]).length - 2) ((children ++ [newLeaf]).length - 1)
    generalize (if order ≤ node.maxOrder then swapAt (children ++ [newLeaf])
      ((children ++ [newLeaf]).length - 2) ((children ++ [newLeaf]).length - 1)
        else children ++ [newLeaf]) = pushed at hpushed ⊢
    obtain ⟨grownChildren, hgrownKind, hgrownPerm⟩ := @growNode_kind U _ _ bounds order none
      ⟨node.bounds.union bounds, max node.maxOrder order, .internal pushed⟩ pushed rfl
    have hplaced : Grown bounds order node
        ⟨node.bounds.union bounds, max node.maxOrder order, .internal pushed⟩ :=
      ⟨within_union_left _ _, within_union_right _ _, .refl _, rfl⟩
    have hchildren : grownChildren.Perm (newLeaf :: below.level) :=
      (hgrownPerm.trans hpushed).trans ((perm_append_singleton _ _).trans (hperm.cons newLeaf))
    apply inserted_room htree hnodup hnode hkind hnew _
      (hplaced.trans (growNode_grown none _)) hgrownKind hchildren
    · intro i hi
      rw [getElem?_modify_ne _ _ hi.symm, getElem?_set_ne hi.symm]
    · simp [hlt]
  · rw [if_neg hroom]
    refine ⟨_, .ofTrees ((nodes.length, pairForest bestIndex newLeaf) :: others), rfl, ?_⟩
    have hreplaced := swapAt_ite_perm (node.maxOrder < (pairNode sibling bestIndex bounds order
      newLeaf).maxOrder) (children.set bestPos nodes.length) bestPos (children.length - 1)
    generalize (if node.maxOrder < (pairNode sibling bestIndex bounds order newLeaf).maxOrder
      then swapAt (children.set bestPos nodes.length) bestPos (children.length - 1)
        else children.set bestPos nodes.length) = replaced at hreplaced ⊢
    obtain ⟨grownChildren, hgrownKind, hgrownPerm⟩ := @growNode_kind U _ _ bounds order none
      { node with kind := .internal replaced } replaced rfl
    have hgrown' := @growNode_grown U _ _ bounds order none { node with kind := .internal replaced }
    have hgrown : Grown bounds order node
        (growNode bounds order none { node with kind := .internal replaced }) :=
      ⟨hgrown'.keeps, hgrown'.covers, hgrown'.within, hgrown'.maxOrder⟩
    have hrest : (children.eraseIdx bestPos).Perm (others.map Prod.fst) :=
      ((perm_of_getElem? hpos).symm.trans (hperm.trans (hbelow.map Prod.fst))).cons_inv
    have hchildren : grownChildren.Perm (nodes.length :: others.map Prod.fst) :=
      (hgrownPerm.trans hreplaced).trans ((set_perm_cons_eraseIdx hposLt _).trans (hrest.cons _))
    apply inserted_full htree hnodup hnode hkind hnew hsibling hwithin hle hbelow _ hgrown
      hgrownKind hchildren
    · rw [getElem?_modify_ne _ _ (Nat.ne_of_lt hlt)]
      simp
    · intro i hi hi'
      rw [getElem?_modify_ne _ _ hi.symm]
      by_cases hlast : i < nodes.length
      · rw [getElem?_append_left (by simpa using hlast), getElem?_set_ne hi.symm]
      · have hbeyond : nodes.length < i := by omega
        rw [getElem?_eq_none (by simpa using Nat.succ_le_of_lt hbeyond),
          getElem?_eq_none hbeyond.le]
    · rw [getElem?_modify_eq, getElem?_append_left (by simpa using hlt)]
      simp [hlt]

theorem StoredTree.isLeaf (h : StoredTree nodes (index, below)) (hnode : nodes[index]? = some node)
    (hkind : node.kind = .leaf order) : IsLeaf nodes index node ∧ below = .nil := by
  obtain ⟨⟨top, htop, hstoredKind⟩, _⟩ := h
  rw [hnode, some.injEq] at htop
  subst htop
  rcases hstoredKind with ⟨_, hleaf, rfl, hnil⟩ | ⟨_, hinternal, _⟩
  · exact ⟨⟨hnode, hleaf⟩, hnil⟩
  · rw [hkind] at hinternal
    cases hinternal

theorem exists_inserted (hnew : IsLeaf nodes newLeaf ⟨bounds, order, .leaf order⟩) {fuel : Nat}
    (htree : StoredTree nodes (index, below)) (hnodup : (indicesOf (index, below)).Nodup)
    (hnode : nodes[index]? = some node) (hkind : node.kind = .internal children)
    (hnotin : newLeaf ∉ indicesOf (index, below))
    (hfuel : (indicesOf (index, below)).length ≤ fuel) :
    ∃ descent placed below', descend nodes bounds fuel index = some descent ∧
      placeLeaf nodes descent bounds order newLeaf = some placed ∧
        Inserted bounds order newLeaf nodes
          (propagate bounds order descent.path.reverse none placed) (index, below) below' := by
  induction fuel generalizing index below node children with
  | zero => cases hfuel
  | succ fuel ih =>
    obtain ⟨top, htop, hstoredKind⟩ := htree.1
    rw [hnode, some.injEq] at htop
    subst htop
    rcases hstoredKind with ⟨_, hleaf, _⟩ | ⟨_, hinternal, hne, hperm, hchildren⟩
    · rw [hkind] at hleaf
      cases hleaf
    · rw [hkind, NodeKind.internal.injEq] at hinternal
      subst hinternal
      obtain ⟨best, hbest, hpos⟩ := @bestChild_spec U _ _ nodes bounds children hne
        fun child hchild => (hchildren child hchild).imp fun _ h => h.1
      have hmem : best.index ∈ children := mem_of_getElem? hpos
      obtain ⟨child, hchild, hwithin, hle⟩ := hchildren best.index hmem
      obtain ⟨lower, hlower⟩ := mem_level_iff.mp (hperm.subset hmem)
      obtain ⟨front, back, hsplit⟩ := append_of_mem hlower
      have hbelow : below.trees.Perm ((best.index, lower) :: (front ++ back)) := by
        rw [hsplit]
        exact perm_middle
      have hlowerStored : StoredTree nodes (best.index, lower) := stored_iff.mp htree.2 _ hlower
      cases hchildKind : child.kind with
      | leaf childOrder =>
        obtain ⟨hisLeaf, rfl⟩ := hlowerStored.isLeaf hchild hchildKind
        obtain ⟨placed, below', hplaced, hinserted⟩ := exists_placed hnew htree hnodup hnode
          hkind hperm hpos hbelow hisLeaf hwithin hle
        refine ⟨_, placed, below', ?_, hplaced, hinserted⟩
        rw [descend, hnode]
        simp only [hkind, hbest, hchild, hchildKind]
      | internal grandchildren =>
        have hlowerSub : (indicesOf (best.index, lower)).Sublist below.flatten := by
          rw [Forest.flatten_eq_flatMap, hsplit, flatMap_append]
          exact (sublist_append_left _ _).trans (sublist_append_right _ _)
        have hlowerNodup := (nodup_cons.mp hnodup).2.sublist hlowerSub
        have hlowerNotin : newLeaf ∉ indicesOf (best.index, lower) := fun hin =>
          hnotin (mem_cons_of_mem _ (hlowerSub.subset hin))
        have hlowerFuel : (indicesOf (best.index, lower)).length ≤ fuel :=
          hlowerSub.length_le.trans (le_of_succ_le_succ hfuel)
        obtain ⟨descent, placed, lower', hdescend, hplaced, hinserted⟩ :=
          ih hlowerStored hlowerNodup hchild hchildKind hlowerNotin hlowerFuel
        obtain ⟨updated, hpropagate⟩ := @exists_propagate_append U _ _ bounds order
          descent.path.reverse index none placed
        obtain ⟨grownChildren, hgrownKind, hgrownPerm⟩ :=
          @growNode_kind U _ _ bounds order updated node children hkind
        refine ⟨{ descent with path := index :: descent.path }, placed,
          .ofTrees ((best.index, lower') :: (front ++ back)), ?_, hplaced, ?_⟩
        · rw [descend, hnode]
          simp only [hkind, hbest, hchild, hchildKind, hdescend, map_some]
        · rw [reverse_cons, hpropagate]
          have hnotBelow : index ∉ indicesOf (best.index, lower) := fun hin =>
            (nodup_cons.mp hnodup).1 (hlowerSub.subset hin)
          have hlt : index < nodes.length := (List.getElem?_eq_some_iff.mp hnode).1
          apply inserted_above htree hnodup hnode hkind hnotin hperm hbelow hchild hwithin
            hle hinserted _ (growNode_grown updated node) hgrownKind hgrownPerm
          · intro i hi
            rw [getElem?_modify_ne _ _ hi.symm]
          · rw [getElem?_modify_eq, hinserted.frame index hlt hnotBelow, hnode]
            rfl

end OpenGpui.Scene
