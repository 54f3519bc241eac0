/-
What the arena stores: a forest of indices in which every node bounds the nodes below
it, in space and in order.  The search finds the greatest order of a leaf that
intersects the query.
-/
import OpenGpui.Scene.BoundsTree
import Mathlib.Data.List.Flatten

namespace OpenGpui.Scene

open List

section Geometry

variable {U : Type} [AddCommGroup U] [LinearOrder U]

/-- Bounds inside others, by their corners. -/
structure Within (inner outer : Bounds U) : Prop where
  left : outer.origin.x ≤ inner.origin.x
  top : outer.origin.y ≤ inner.origin.y
  right : inner.bottomRight.x ≤ outer.bottomRight.x
  bottom : inner.bottomRight.y ≤ outer.bottomRight.y

theorem Within.refl (bounds : Bounds U) : Within bounds bounds :=
  ⟨le_refl _, le_refl _, le_refl _, le_refl _⟩

variable {outer : Bounds U}

theorem Within.trans {inner middle : Bounds U} (h : Within inner middle)
    (h' : Within middle outer) : Within inner outer :=
  ⟨h'.left.trans h.left, h'.top.trans h.top, h.right.trans h'.right, h.bottom.trans h'.bottom⟩

variable (bounds other : Bounds U)

theorem bottomRight_union :
    (bounds.union other).bottomRight = ⟨max bounds.bottomRight.x other.bottomRight.x,
        max bounds.bottomRight.y other.bottomRight.y⟩ := by
  simp [Bounds.union, Bounds.fromCorners, Bounds.bottomRight]

theorem within_union_left : Within bounds (bounds.union other) where
  left := min_le_left _ _
  top := min_le_left _ _
  right := by rw [bottomRight_union]; exact le_max_left _ _
  bottom := by rw [bottomRight_union]; exact le_max_left _ _

theorem within_union_right : Within other (bounds.union other) where
  left := min_le_right _ _
  top := min_le_right _ _
  right := by rw [bottomRight_union]; exact le_max_right _ _
  bottom := by rw [bottomRight_union]; exact le_max_right _ _

theorem union_within {first second : Bounds U} (hfirst : Within first outer)
    (hsecond : Within second outer) : Within (first.union second) outer where
  left := le_min hfirst.left hsecond.left
  top := le_min hfirst.top hsecond.top
  right := by rw [bottomRight_union]; exact max_le hfirst.right hsecond.right
  bottom := by rw [bottomRight_union]; exact max_le hfirst.bottom hsecond.bottom

theorem intersects_iff {query bounds : Bounds U} : query.intersects bounds = true ↔
      query.origin.x < bounds.bottomRight.x ∧ bounds.origin.x < query.bottomRight.x ∧
        query.origin.y < bounds.bottomRight.y ∧ bounds.origin.y < query.bottomRight.y := by
  simp [Bounds.intersects, and_assoc]

theorem intersects_comm : bounds.intersects other = other.intersects bounds := by
  rw [Bool.eq_iff_iff, intersects_iff, intersects_iff]
  tauto

theorem intersects_of_within {query inner : Bounds U} (hwithin : Within inner outer)
    (h : query.intersects inner = true) : query.intersects outer = true := by
  rw [intersects_iff] at h ⊢
  exact ⟨h.1.trans_le hwithin.right, hwithin.left.trans_lt h.2.1,
    h.2.2.1.trans_le hwithin.bottom, hwithin.top.trans_lt h.2.2.2⟩

end Geometry

variable {U : Type} [AddCommGroup U] [LinearOrder U]

/-- A node with the indices below it, in any order. -/
def StoredNode (nodes : List (Node U)) (index : Nat) (below : Forest Nat) : Prop :=
  ∃ node, nodes[index]? = some node ∧
    ((∃ order, node.kind = .leaf order ∧ order = node.maxOrder ∧ below = .nil) ∨
      ∃ children, node.kind = .internal children ∧ children ≠ [] ∧
        children.Perm below.level ∧ ∀ child ∈ children, ∃ childNode,
          nodes[child]? = some childNode ∧ Within childNode.bounds node.bounds ∧
            childNode.maxOrder ≤ node.maxOrder)

def Stored (nodes : List (Node U)) : Forest Nat → Prop
  | .nil => True
  | .cons index below rest =>
    (StoredNode nodes index below ∧ Stored nodes below) ∧ Stored nodes rest

def StoredTree (nodes : List (Node U)) (tree : Nat × Forest Nat) : Prop :=
  StoredNode nodes tree.1 tree.2 ∧ Stored nodes tree.2

def indicesOf (tree : Nat × Forest Nat) : List Nat := tree.1 :: tree.2.flatten

variable {nodes : List (Node U)} {forest : Forest Nat}

theorem stored_iff : Stored nodes forest ↔ ∀ tree ∈ forest.trees, StoredTree nodes tree := by
  induction forest with
  | nil => simp [Stored, Forest.trees]
  | cons index below rest _ ih =>
    rw [Stored, Forest.trees, forall_mem_cons, ih]
    rfl

variable {index : Nat}

theorem mem_flatten_iff :
    index ∈ forest.flatten ↔ ∃ tree ∈ forest.trees, index ∈ indicesOf tree := by
  rw [Forest.flatten_eq_flatMap, mem_flatMap]
  rfl

theorem mem_level_iff : index ∈ forest.level ↔ ∃ below, (index, below) ∈ forest.trees := by
  rw [Forest.level, mem_map]
  constructor
  · rintro ⟨tree, htree, rfl⟩
    exact ⟨tree.2, htree⟩
  · rintro ⟨below, hbelow⟩
    exact ⟨_, hbelow, rfl⟩

theorem mem_flatten_of_level (h : index ∈ forest.level) : index ∈ forest.flatten := by
  obtain ⟨below, hbelow⟩ := mem_level_iff.mp h
  exact mem_flatten_iff.mpr ⟨_, hbelow, mem_cons_self⟩

variable {nodes' : List (Node U)} {below : Forest Nat}

/-- What is stored depends on the nodes of its indices. -/
theorem StoredNode.congr (h : StoredNode nodes index below)
    (hsame : ∀ i ∈ index :: below.level, nodes'[i]? = nodes[i]?) :
    StoredNode nodes' index below := by
  obtain ⟨node, hnode, hkind⟩ := h
  refine ⟨node, by rw [hsame index mem_cons_self, hnode], ?_⟩
  rcases hkind with hleaf | ⟨children, hchildren, hne, hperm, hbelow⟩
  · exact .inl hleaf
  · right
    refine ⟨children, hchildren, hne, hperm, ?_⟩
    intro child hchild
    obtain ⟨childNode, hchildNode, hbounds⟩ := hbelow child hchild
    refine ⟨childNode, ?_, hbounds⟩
    rw [hsame child (mem_cons_of_mem _ (hperm.subset hchild)), hchildNode]

theorem Stored.congr
    (h : Stored nodes forest) (hsame : ∀ i ∈ forest.flatten, nodes'[i]? = nodes[i]?) :
    Stored nodes' forest := by
  induction forest with
  | nil => trivial
  | cons index below rest ihBelow ihRest =>
    obtain ⟨⟨hnode, hbelow⟩, hrest⟩ := h
    simp only [Forest.flatten, mem_cons, mem_append] at hsame
    refine ⟨⟨hnode.congr ?_, ihBelow hbelow ?_⟩, ihRest hrest ?_⟩
    · intro i hi
      rcases mem_cons.mp hi with rfl | hlevel
      · exact hsame _ (.inl rfl)
      · exact hsame i (.inr (.inl (mem_flatten_of_level hlevel)))
    · exact fun i hi => hsame i (.inr (.inl hi))
    · exact fun i hi => hsame i (.inr (.inr hi))

variable {tree : Nat × Forest Nat}

theorem StoredTree.congr
    (h : StoredTree nodes tree) (hsame : ∀ i ∈ indicesOf tree, nodes'[i]? = nodes[i]?) :
    StoredTree nodes' tree := by
  constructor
  · apply h.1.congr
    intro i hi
    rcases mem_cons.mp hi with rfl | hlevel
    · exact hsame _ mem_cons_self
    · exact hsame i (mem_cons_of_mem _ (mem_flatten_of_level hlevel))
  · exact h.2.congr fun i hi => hsame i (mem_cons_of_mem _ hi)

/-- Every node bounds the nodes below it. -/
theorem StoredTree.dominates (h : StoredTree nodes tree) (hindex : index ∈ indicesOf tree) :
    ∃ top node, nodes[tree.1]? = some top ∧ nodes[index]? = some node ∧
      Within node.bounds top.bounds ∧ node.maxOrder ≤ top.maxOrder := by
  have hforest : ∀ forest : Forest Nat, Stored nodes forest → ∀ tree ∈ forest.trees, ∀ index ∈
      indicesOf tree, ∃ top node, nodes[tree.1]? = some top ∧ nodes[index]? = some node ∧ Within
      node.bounds top.bounds ∧ node.maxOrder ≤ top.maxOrder := by
    intro forest
    induction forest with
    | nil =>
      intro _ tree htree
      cases htree
    | cons root below rest ihBelow ihRest =>
      rintro ⟨⟨⟨top, htop, hkind⟩, hbelow⟩, hrest⟩ tree htree index hindex
      rcases mem_cons.mp htree with rfl | hlater
      · rcases mem_cons.mp hindex with rfl | hlower
        · exact ⟨top, top, htop, htop, .refl _, le_refl _⟩
        · obtain ⟨child, hchild, hin⟩ := mem_flatten_iff.mp hlower
          obtain ⟨childNode, node, hchildNode, hnode, hwithin, hle⟩ :=
            ihBelow hbelow child hchild index hin
          rcases hkind with ⟨_, _, _, hnil⟩ | ⟨children, _, _, hperm, hchildren⟩
          · rw [hnil] at hchild
            cases hchild
          · have hlevel : child.1 ∈ below.level := mem_level_iff.mpr ⟨_, hchild⟩
            obtain ⟨other, hother, hwithin', hle'⟩ := hchildren child.1 (hperm.symm.subset hlevel)
            rw [hchildNode, Option.some.injEq] at hother
            subst hother
            exact ⟨top, node, htop, hnode, hwithin.trans hwithin', hle.trans hle'⟩
      · exact ihRest hrest tree hlater index hindex
  exact hforest (.ofTrees [tree]) ⟨h, trivial⟩ tree (by simp) index hindex

/-- A leaf of the arena at an index. -/
def IsLeaf (nodes : List (Node U)) (index : Nat) (node : Node U) : Prop :=
  nodes[index]? = some node ∧ node.kind = .leaf node.maxOrder

theorem exists_perm_map_eq {α β : Type} {f : α → β} {entries : List α} {images : List β}
    (h : images.Perm (entries.map f)) :
    ∃ entries' : List α, entries'.Perm entries ∧ entries'.map f = images := by
  induction images generalizing entries with
  | nil =>
    have hnil : entries = [] := map_eq_nil_iff.mp h.symm.eq_nil
    exact ⟨[], by rw [hnil], rfl⟩
  | cons image images ih =>
    obtain ⟨entry, hentry, rfl⟩ := mem_map.mp (h.subset mem_cons_self)
    obtain ⟨before, after, rfl⟩ := append_of_mem hentry
    have hmiddle : (before ++ entry :: after).Perm (entry :: (before ++ after)) := perm_middle
    have hrest : images.Perm ((before ++ after).map f) :=
      List.Perm.cons_inv (h.trans (hmiddle.map f))
    obtain ⟨entries', hperm, hmap⟩ := ih hrest
    exact ⟨entry :: entries', (hperm.cons entry).trans hmiddle.symm, by
      rw [map_cons, hmap]⟩

/-- How many indices trees hold. -/
def indexCount (trees : List (Nat × Forest Nat)) : Nat := (trees.flatMap indicesOf).length

theorem indexCount_cons (tree : Nat × Forest Nat) (trees : List (Nat × Forest Nat)) :
    indexCount (tree :: trees) = tree.2.flatten.length + 1 + indexCount trees := by
  rw [indexCount, flatMap_cons, length_append]
  rfl

theorem indexCount_append (first second : List (Nat × Forest Nat)) :
    indexCount (first ++ second) = indexCount first + indexCount second := by
  simp [indexCount]

theorem indexCount_trees (forest : Forest Nat) :
    indexCount forest.trees = forest.flatten.length := by
  rw [Forest.flatten_eq_flatMap]
  rfl

/-- The trees of the children that the search pushes. -/
theorem exists_pushed {children : List Nat}
    (hperm : children.Perm below.level) (keep : Nat → Bool) :
    ∃ pushed : List (Nat × Forest Nat), pushed.map Prod.fst = (children.filter keep).reverse ∧
      indexCount pushed ≤ below.flatten.length ∧
        ∀ tree, tree ∈ pushed ↔ tree ∈ below.trees ∧ keep tree.1 = true := by
  obtain ⟨trees, htrees, hmap⟩ := exists_perm_map_eq hperm
  refine ⟨(trees.filter fun tree => keep tree.1).reverse, ?_, ?_, ?_⟩
  · rw [← hmap, map_reverse, filter_map]
    rfl
  · have hreverse : indexCount (trees.filter fun tree => keep tree.1).reverse =
        indexCount (trees.filter fun tree => keep tree.1) := by
      exact ((reverse_perm _).flatMap_right _).length_eq
    have hfilter : indexCount (trees.filter fun tree => keep tree.1) ≤ indexCount trees :=
      (filter_sublist.flatMap indicesOf).length_le
    have hsame : indexCount trees = indexCount below.trees := (htrees.flatMap_right _).length_eq
    rw [← indexCount_trees]
    omega
  · intro tree
    rw [mem_reverse, mem_filter, htrees.mem_iff]

/-- An answer of the search: it is the order it started from or that of a leaf that
intersects the query, and no such leaf has a greater one. -/
structure Answers (nodes : List (Node U)) (query : Bounds U) (trees : List (Nat × Forest Nat))
    (start result : Nat) : Prop where
  start_le : start ≤ result
  greatest : ∀ tree ∈ trees, ∀ index ∈ indicesOf tree, ∀ node, IsLeaf nodes index node →
    query.intersects node.bounds = true → node.maxOrder ≤ result
  attained : result = start ∨ ∃ tree ∈ trees, ∃ index ∈ indicesOf tree, ∃ node,
    IsLeaf nodes index node ∧ query.intersects node.bounds = true ∧ node.maxOrder = result

variable {trees : List (Nat × Forest Nat)} {query : Bounds U} {start result : Nat}

/-- A tree none of whose leaves can count does not change the answer. -/
theorem Answers.skip (h : Answers nodes query trees start result)
    (htree : ∀ index ∈ indicesOf tree, ∀ node, IsLeaf nodes index node →
      query.intersects node.bounds = true → node.maxOrder ≤ start) :
    Answers nodes query (tree :: trees) start result where
  start_le := h.start_le
  greatest := by
    rw [forall_mem_cons]
    exact ⟨fun index hindex node hleaf hintersects =>
      (htree index hindex node hleaf hintersects).trans h.start_le, h.greatest⟩
  attained := by
    rcases h.attained with hstart | ⟨tree, hmem, hfound⟩
    · exact .inl hstart
    · exact .inr ⟨tree, mem_cons_of_mem _ hmem, hfound⟩

/-- The order of a leaf counts from then on. -/
theorem Answers.leaf {order : Nat} (h : Answers nodes query trees (max start order) result)
    {node : Node U} (hleaf : IsLeaf nodes tree.1 node) (hnil : tree.2 = .nil)
    (hintersects : query.intersects node.bounds = true) (horder : order = node.maxOrder) :
    Answers nodes query (tree :: trees) start result where
  start_le := (le_max_left _ _).trans h.start_le
  greatest := by
    rw [forall_mem_cons]
    refine ⟨?_, h.greatest⟩
    intro index hindex other hother _
    rw [indicesOf, hnil] at hindex
    obtain rfl := mem_singleton.mp hindex
    rw [hleaf.1.symm.trans hother.1 |> Option.some.inj |>.symm, ← horder]
    exact (le_max_right _ _).trans h.start_le
  attained := by
    rcases h.attained with hstart | ⟨later, hmem, hfound⟩
    · rcases le_total order start with hle | hle
      · rw [max_eq_left hle] at hstart
        exact .inl hstart
      · rw [max_eq_right hle, horder] at hstart
        exact .inr ⟨tree, mem_cons_self, tree.1, mem_cons_self, node, hleaf,
          hintersects, hstart.symm⟩
    · exact .inr ⟨later, mem_cons_of_mem _ hmem, hfound⟩

/-- The trees below a node answer for it, those of them that cannot count left out. -/
theorem Answers.ofBelow {pushed : List (Nat × Forest Nat)}
    (h : Answers nodes query (pushed ++ trees) start result)
    (hinner : ∀ node, ¬IsLeaf nodes index node)
    (hpushed : ∀ tree ∈ pushed, tree ∈ below.trees)
    (hleft : ∀ tree ∈ below.trees, tree ∉ pushed → ∀ index ∈ indicesOf tree, ∀ node,
      IsLeaf nodes index node → node.maxOrder ≤ start) :
    Answers nodes query ((index, below) :: trees) start result where
  start_le := h.start_le
  greatest := by
    rw [forall_mem_cons]
    refine ⟨?_, fun tree htree => h.greatest tree (mem_append_right _ htree)⟩
    intro lower hlower node hleaf hintersects
    rcases mem_cons.mp hlower with rfl | hbelow
    · exact absurd hleaf (hinner node)
    · obtain ⟨tree, htree, hin⟩ := mem_flatten_iff.mp hbelow
      by_cases hmem : tree ∈ pushed
      · exact h.greatest tree (mem_append_left _ hmem) lower hin node hleaf hintersects
      · exact (hleft tree htree hmem lower hin node hleaf).trans h.start_le
  attained := by
    rcases h.attained with hstart | ⟨tree, hmem, lower, hlower, hfound⟩
    · exact .inl hstart
    · rcases mem_append.mp hmem with hbelow | hlater
      · exact .inr ⟨_, mem_cons_self, lower, mem_cons_of_mem _ (mem_flatten_iff.mpr ⟨tree, hpushed
          tree hbelow, hlower⟩), hfound⟩
      · exact .inr ⟨tree, mem_cons_of_mem _ hlater, lower, hlower, hfound⟩

theorem search_answers (query : Bounds U) {fuel : Nat} (hstored :
    ∀ tree ∈ trees, StoredTree nodes tree) (hfuel : indexCount trees ≤ fuel) (start : Nat) :
    ∃ result, BoundsTree.search nodes query fuel (trees.map Prod.fst) start = some result ∧
      Answers nodes query trees start result := by
  induction fuel generalizing trees start with
  | zero =>
    cases trees with
    | nil =>
      exact ⟨start, rfl, le_refl _, by simp, .inl rfl⟩
    | cons tree rest =>
      rw [indexCount_cons] at hfuel
      omega
  | succ fuel ih =>
    cases trees with
    | nil => exact ⟨start, by rw [map_nil, BoundsTree.search], le_refl _, by simp, .inl rfl⟩
    | cons tree rest =>
      rw [forall_mem_cons] at hstored
      obtain ⟨htree, hrest⟩ := hstored
      rw [indexCount_cons] at hfuel
      obtain ⟨node, hnode, hkind⟩ := htree.1
      have hdominated : ∀ index ∈ indicesOf tree, ∀ leaf, IsLeaf nodes index leaf →
          Within leaf.bounds node.bounds ∧ leaf.maxOrder ≤ node.maxOrder := by
        intro index hindex leaf hleaf
        obtain ⟨top, other, htop, hother, hwithin, hle⟩ := htree.dominates hindex
        rw [hnode, Option.some.injEq] at htop
        rw [hleaf.1, Option.some.injEq] at hother
        subst htop hother
        exact ⟨hwithin, hle⟩
      rw [map_cons, BoundsTree.search, hnode]
      by_cases hpruned : node.maxOrder ≤ start
      · obtain ⟨result, hresult, hanswers⟩ := ih hrest (by omega) start
        refine ⟨result, by simp only [if_pos hpruned, hresult], hanswers.skip ?_⟩
        intro index hindex leaf hleaf _
        exact (hdominated index hindex leaf hleaf).2.trans hpruned
      · by_cases hintersects : query.intersects node.bounds = true
        · simp only [if_neg hpruned, if_pos hintersects]
          rcases hkind with ⟨order, hleaf, horder, hnil⟩ | ⟨children, hinternal, _, hperm, _⟩
          · -- the leaf itself is found
            obtain ⟨result, hresult, hanswers⟩ := ih hrest (by omega) (max start order)
            refine ⟨result, by simp only [hleaf, hresult], ?_⟩
            have hisLeaf : IsLeaf nodes tree.1 node := ⟨hnode, by rw [hleaf, horder]⟩
            exact hanswers.leaf hisLeaf hnil hintersects horder
          · have hpushed := exists_pushed hperm fun child =>
              nodes[child]?.any fun node => decide (start < node.maxOrder)
            obtain ⟨pushed, hmap, hcount, hmem⟩ := hpushed
            have hbelow : ∀ tree ∈ pushed ++ rest, StoredTree nodes tree := by
              rw [forall_mem_append]
              exact ⟨fun child hchild =>
                stored_iff.mp htree.2 child ((hmem child).mp hchild).1, hrest⟩
            obtain ⟨result, hresult, hanswers⟩ := ih hbelow (by rw [indexCount_append]; omega) start
            rw [map_append, hmap] at hresult
            refine ⟨result, by simp only [hinternal, hresult], ?_⟩
            have hinner : ∀ leaf, ¬IsLeaf nodes tree.1 leaf := by
              intro leaf hleaf
              have hsame : node = leaf := Option.some.inj (hnode.symm.trans hleaf.1)
              rw [← hsame] at hleaf
              rw [hleaf.2] at hinternal
              cases hinternal
            apply hanswers.ofBelow hinner fun child hchild => ((hmem child).mp hchild).1
            intro child hchild hnot lower hlower leaf hleaf
            obtain ⟨top, other, htop, hother, _, hle⟩ :=
              (stored_iff.mp htree.2 child hchild).dominates hlower
            have hsame : other = leaf := Option.some.inj (hother.symm.trans hleaf.1)
            have hdropped : ¬start < top.maxOrder := by
              intro hlt
              exact hnot ((hmem child).mpr ⟨hchild, by simp [htop, hlt]⟩)
            rw [← hsame]
            exact hle.trans (Nat.le_of_not_lt hdropped)
        · obtain ⟨result, hresult, hanswers⟩ := ih hrest (by omega) start
          refine ⟨result, by simp only [if_neg hpruned, if_neg hintersects, hresult],
            hanswers.skip ?_⟩
          intro index hindex leaf hleaf hleafIntersects
          exact absurd (intersects_of_within (hdominated index hindex leaf hleaf).1
            hleafIntersects) hintersects

end OpenGpui.Scene
