/-
Paint orders: the tree gives bounds one more than the greatest order among the bounds
before them that they intersect.
-/
import OpenGpui.Scene.BoundsTreeInsert
import Mathlib.Algebra.Group.Int.Defs

namespace OpenGpui.Scene

open List Option Nat

open BoundsTree

variable {U : Type} [AddCommGroup U] [LinearOrder U]

/-- One more than the greatest order of the entries that intersect, and one if none
does. -/
def naiveOrder (entries : List (Bounds U × Nat)) (bounds : Bounds U) : Nat :=
  ((entries.filter fun entry => entry.1.intersects bounds).map Prod.snd).max?.getD 0 + 1

/-- The orders of bounds that come one after the other. -/
def naiveOrders (entries : List (Bounds U × Nat)) : List (Bounds U) → List Nat
  | [] => []
  | bounds :: rest =>
    naiveOrder entries bounds :: naiveOrders (entries ++ [(bounds, naiveOrder entries bounds)]) rest

variable {entries : List (Bounds U × Nat)} {bounds : Bounds U}

theorem naiveOrder_eq {result : Nat}
    (hgreatest : ∀ entry ∈ entries, bounds.intersects entry.1 = true → entry.2 ≤ result)
    (hattained : result = 0 ∨
      ∃ entry ∈ entries, bounds.intersects entry.1 = true ∧ entry.2 = result) :
    naiveOrder entries bounds = result + 1 := by
  rw [naiveOrder]
  congr 1
  have hle : ∀ order ∈ (entries.filter fun entry => entry.1.intersects bounds).map Prod.snd,
      order ≤ result := by
    intro order horder
    obtain ⟨entry, hentry, rfl⟩ := mem_map.mp horder
    rw [mem_filter, intersects_comm] at hentry
    exact hgreatest entry hentry.1 hentry.2
  cases hmax : ((entries.filter fun entry => entry.1.intersects bounds).map Prod.snd).max? with
  | none =>
    rw [max?_eq_none_iff, map_eq_nil_iff, filter_eq_nil_iff] at hmax
    rcases hattained with rfl | ⟨entry, hentry, hintersects, _⟩
    · rfl
    · rw [intersects_comm] at hintersects
      exact absurd hintersects (hmax entry hentry)
  | some greatest =>
    obtain ⟨hmem, hgreater⟩ := max?_eq_some_iff.mp hmax
    have hupper : greatest ≤ result := hle greatest hmem
    rcases hattained with rfl | ⟨entry, hentry, hintersects, rfl⟩
    · exact le_zero.mp hupper
    · rw [intersects_comm] at hintersects
      apply le_antisymm hupper
      exact hgreater _ (mem_map_of_mem (mem_filter.mpr ⟨hentry, hintersects⟩))

theorem naiveOrder_le {most : Nat} (h : ∀ entry ∈ entries, entry.2 ≤ most) (bounds : Bounds U) :
    naiveOrder entries bounds ≤ most + 1 := by
  apply succ_le_succ
  cases hmax : ((entries.filter fun entry => entry.1.intersects bounds).map Prod.snd).max? with
  | none => exact zero_le _
  | some greatest =>
    obtain ⟨hmem, _⟩ := max?_eq_some_iff.mp hmax
    obtain ⟨entry, hentry, rfl⟩ := mem_map.mp hmem
    exact h entry (mem_filter.mp hentry).1

/-- The leaves below a root are the entries. -/
structure Holds (nodes : List (Node U)) (tree : Nat × Forest Nat)
    (entries : List (Bounds U × Nat)) : Prop where
  stored : StoredTree nodes tree
  nodup : (indicesOf tree).Nodup
  entries : ∀ entry, entry ∈ entries ↔ ∃ index ∈ indicesOf tree, ∃ leaf,
    IsLeaf nodes index leaf ∧ entry = (leaf.bounds, leaf.maxOrder)

theorem Holds.length_le {nodes : List (Node U)} {tree : Nat × Forest Nat} (h :
    Holds nodes tree entries) :
    (indicesOf tree).length ≤ nodes.length := by
  have hsubset : indicesOf tree ⊆ List.range nodes.length := fun index hindex =>
    mem_range.mpr (h.stored.lt_length hindex)
  have hlength := (subperm_of_subset h.nodup hsubset).length_le
  rwa [length_range] at hlength

/-- What a tree represents: its entries, with a leaf of the greatest order. -/
inductive Represents : BoundsTree U → List (Bounds U × Nat) → Prop where
  | empty : Represents .empty []
  | rooted {nodes : List (Node U)} {root maxLeaf : Nat} {below : Forest Nat}
      {entries : List (Bounds U × Nat)} {leaf : Node U}
      (holds : Holds nodes (root, below) entries)
      (hmem : maxLeaf ∈ indicesOf (root, below)) (hleaf : IsLeaf nodes maxLeaf leaf)
      (hgreatest : ∀ entry ∈ entries, entry.2 ≤ leaf.maxOrder) :
      Represents ⟨nodes, some root, some maxLeaf⟩ entries

variable {tree : BoundsTree U}

/-- The way over the leaf of the greatest order and the search find the same. -/
theorem findMaxOrdering_spec (h : Represents tree entries) (query : Bounds U) :
    ∃ result, tree.findMaxOrdering query = some result ∧ naiveOrder entries query = result + 1 := by
  cases h with
  | empty => exact ⟨0, rfl, rfl⟩
  | @rooted nodes root maxLeaf below entries leaf holds hmem hleaf hgreatest =>
    rw [findMaxOrdering]
    simp only [map_some, hleaf.1]
    by_cases hintersects : query.intersects leaf.bounds = true
    · rw [if_pos hintersects]
      refine ⟨_, rfl, naiveOrder_eq (fun entry hentry _ => hgreatest entry hentry) ?_⟩
      exact .inr ⟨_, (holds.entries _).mpr ⟨maxLeaf, hmem, leaf, hleaf, rfl⟩, hintersects, rfl⟩
    · rw [if_neg hintersects]
      have hstored : ∀ tree ∈ [(root, below)], StoredTree nodes tree := by
        simpa using holds.stored
      have hfuel : indexCount [(root, below)] ≤ nodes.length := by
        rw [indexCount, flatMap_singleton]
        exact holds.length_le
      obtain ⟨result, hresult, hanswers⟩ := search_answers query hstored hfuel 0
      refine ⟨result, hresult, naiveOrder_eq ?_ ?_⟩
      · intro entry hentry hentryIntersects
        obtain ⟨index, hindex, other, hother, rfl⟩ := (holds.entries entry).mp hentry
        exact hanswers.greatest _ mem_cons_self index hindex other hother hentryIntersects
      · rcases hanswers.attained with hzero |
          ⟨tree, htree, index, hindex, other, hother, hotherIntersects, rfl⟩
        · exact .inl hzero
        · obtain rfl := mem_singleton.mp htree
          exact .inr ⟨_, (holds.entries _).mpr ⟨index, hindex, other, hother, rfl⟩,
            hotherIntersects, rfl⟩

/-- A leaf more. -/
theorem Holds.extend {nodes after : List (Node U)} {tree tree' : Nat × Forest Nat} {order :
    Nat} {fresh : List Nat}
    (h : Holds nodes tree entries) (hstored : StoredTree after tree')
    (hfresh : ∀ index ∈ fresh, nodes.length + 1 ≤ index) (hfreshNodup : fresh.Nodup)
    (hindices : (indicesOf tree').Perm (nodes.length :: (fresh ++ indicesOf tree)))
    (hleaves : ∀ index leaf, IsLeaf after index leaf ↔
      IsLeaf (nodes ++ [⟨bounds, order, .leaf order⟩]) index leaf) :
    Holds after tree' (entries ++ [(bounds, order)]) where
  stored := hstored
  nodup := by
    rw [hindices.nodup_iff, nodup_cons, nodup_append, mem_append]
    refine ⟨?_, hfreshNodup, h.nodup, ?_⟩
    · rintro (hin | hin)
      · exact not_succ_le_self _ (hfresh _ hin)
      · exact lt_irrefl _ (h.stored.lt_length hin)
    · rintro index hin _ hin' rfl
      exact not_lt.mpr (le_of_succ_le (hfresh index hin)) (h.stored.lt_length hin')
  entries := by
    intro entry
    rw [mem_append, mem_singleton, h.entries]
    constructor
    · rintro (⟨index, hindex, leaf, hleaf, rfl⟩ | rfl)
      · refine ⟨index, hindices.symm.subset ?_, leaf, ?_, rfl⟩
        · exact mem_cons_of_mem _ (mem_append_right _ hindex)
        · rw [hleaves, IsLeaf, getElem?_append_left (h.stored.lt_length hindex)]
          exact hleaf
      · refine ⟨nodes.length, hindices.symm.subset mem_cons_self,
          ⟨bounds, order, .leaf order⟩, ?_, rfl⟩
        rw [hleaves]
        exact ⟨getElem?_concat_length, rfl⟩
    · rintro ⟨index, hindex, leaf, hleaf, rfl⟩
      rw [hleaves] at hleaf
      rcases mem_cons.mp (hindices.subset hindex) with rfl | hlater
      · right
        have hsame := hleaf.1
        rw [getElem?_concat_length, some.injEq] at hsame
        rw [← hsame]
      · rcases mem_append.mp hlater with hnewer | holder
        · have hnone := hleaf.1
          rw [getElem?_eq_none (by simpa using hfresh index hnewer)] at hnone
          cases hnone
        · left
          rw [IsLeaf, getElem?_append_left (h.stored.lt_length holder)] at hleaf
          exact ⟨index, holder, leaf, hleaf, rfl⟩

section Insertion

variable {nodes : List (Node U)} {root : Nat} {below : Forest Nat}
  {entries : List (Bounds U × Nat)}

theorem insertLeaf_spec (h : Holds nodes (root, below) entries) (maxLeaf : Option Nat)
    (bounds : Bounds U) (order : Nat) :
    ∃ after root' below', insertLeaf ⟨nodes, some root, maxLeaf⟩ bounds order =
          some ⟨after, some root', maxLeaf⟩ ∧
        Holds after (root', below') (entries ++ [(bounds, order)]) ∧
        nodes.length :: indicesOf (root, below) ⊆ indicesOf (root', below') ∧
        ∀ index leaf, IsLeaf after index leaf ↔
          IsLeaf (nodes ++ [⟨bounds, order, .leaf order⟩]) index leaf := by
  have hsame : ∀ i ∈ indicesOf (root, below),
      (nodes ++ [⟨bounds, order, .leaf order⟩])[i]? = nodes[i]? := fun i hi =>
    getElem?_append_left (h.stored.lt_length hi)
  have hstored := h.stored.congr hsame
  have hnew : IsLeaf (nodes ++ [⟨bounds, order, .leaf order⟩]) nodes.length
      ⟨bounds, order, .leaf order⟩ := ⟨getElem?_concat_length, rfl⟩
  have hsubset : ∀ {fresh all : List Nat},
      all.Perm (nodes.length :: (fresh ++ indicesOf (root, below))) →
        nodes.length :: indicesOf (root, below) ⊆ all := by
    intro fresh all hperm index hindex
    apply hperm.symm.subset
    rcases mem_cons.mp hindex with rfl | hin
    · exact mem_cons_self
    · exact mem_cons_of_mem _ (mem_append_right _ hin)
  obtain ⟨rootNode, hrootNode, _⟩ := hstored.1
  rw [insertLeaf]
  simp only [hrootNode]
  cases hkind : rootNode.kind with
  | leaf rootOrder =>
    -- the root goes below a new one, together with the new leaf
    obtain ⟨hrootLeaf, rfl⟩ := hstored.isLeaf hrootNode hkind
    have hpair : ((nodes ++ [⟨bounds, order, .leaf order⟩]) ++ [pairNode rootNode root bounds order
        nodes.length])[(nodes ++ [(⟨bounds, order, .leaf order⟩ : Node U)]).length]? = some
        (pairNode rootNode root bounds order nodes.length) :=
      getElem?_concat_length
    have hleaves := isLeaf_iff_append_internal (nodes ++ [⟨bounds, order, .leaf order⟩])
      (pairNode rootNode root bounds order nodes.length) rfl
    have hpairStored := storedTree_pair hpair ((hleaves _ _).mpr hrootLeaf) ((hleaves _ _).mpr hnew)
    have hindices : (indicesOf ((nodes ++ [(⟨bounds, order, .leaf order⟩ : Node U)]).length,
        pairForest root nodes.length)).Perm (nodes.length ::
          ([(nodes ++ [(⟨bounds, order, .leaf order⟩ : Node U)]).length] ++
            indicesOf (root, .nil))) :=
      @perm_append_comm _ [_, root] [nodes.length]
    refine ⟨_, _, _, rfl, h.extend hpairStored ?_ (by simp) hindices hleaves,
      hsubset hindices, hleaves⟩
    simp
  | internal children =>
    have hnotin : nodes.length ∉ indicesOf (root, below) := fun hin =>
      lt_irrefl _ (h.stored.lt_length hin)
    have hfuel : (indicesOf (root, below)).length ≤
        (nodes ++ [(⟨bounds, order, .leaf order⟩ : Node U)]).length := by
      rw [length_append]
      exact h.length_le.trans (le_add_right _ _)
    obtain ⟨descent, placed, below', hdescend, hplaced, hinserted⟩ :=
      exists_inserted hnew hstored h.nodup hrootNode hkind hnotin hfuel
    obtain ⟨fresh, hfresh, hfreshNodup, hindices⟩ := hinserted.indices
    rw [length_append] at hfresh
    refine ⟨_, root, below', ?_, h.extend hinserted.stored hfresh hfreshNodup hindices
      hinserted.leaves, hsubset hindices, hinserted.leaves⟩
    rw [hdescend, bind_some, hplaced, map_some]

theorem insert_spec {tree : BoundsTree U} (h : Represents tree entries)
    (horders : ∀ entry ∈ entries, entry.2 ≤ entries.length)
    (hlength : entries.length + 1 < 2 ^ 32) (bounds : Bounds U) :
    ∃ after, tree.insert bounds = some (after, naiveOrder entries bounds) ∧
      Represents after (entries ++ [(bounds, naiveOrder entries bounds)]) := by
  obtain ⟨found, hfound, hnaive⟩ := findMaxOrdering_spec h bounds
  have hordering : (found + 1) % 2 ^ 32 = naiveOrder entries bounds := by
    rw [← hnaive]
    exact Nat.mod_eq_of_lt ((naiveOrder_le horders bounds).trans_lt hlength)
  rw [BoundsTree.insert, hfound, bind_some, hordering]
  generalize naiveOrder entries bounds = order
  cases h with
  | empty =>
    refine ⟨_, rfl, ?_⟩
    have hleaf : IsLeaf [⟨bounds, order, .leaf order⟩] 0 ⟨bounds, order, .leaf order⟩ := ⟨rfl, rfl⟩
    refine .rooted ⟨storedTree_leaf hleaf, by simp [indicesOf, Forest.flatten], ?_⟩
      mem_cons_self hleaf (by simp)
    intro entry
    simp only [nil_append, mem_singleton]
    constructor
    · rintro rfl
      exact ⟨0, mem_cons_self, _, hleaf, rfl⟩
    · rintro ⟨index, hindex, leaf, hother, rfl⟩
      obtain rfl := mem_singleton.mp hindex
      have hsame : some _ = some leaf := hother.1
      rw [some.injEq] at hsame
      rw [← hsame]
  | @rooted nodes root maxLeaf below _ leaf holds hmem hleaf hgreatest =>
    obtain ⟨after, root', below', hinsert, hholds, hsubset, hleaves⟩ :=
      insertLeaf_spec holds (some maxLeaf) bounds order
    have hnew : IsLeaf after nodes.length ⟨bounds, order, .leaf order⟩ :=
      (hleaves _ _).mpr ⟨getElem?_concat_length, rfl⟩
    have hold : IsLeaf after maxLeaf leaf := by
      rw [hleaves, IsLeaf, getElem?_append_left (holds.stored.lt_length hmem)]
      exact hleaf
    simp only [hinsert, map_some, hold.1, any_some, decide_eq_true_eq]
    refine ⟨_, rfl, ?_⟩
    by_cases hgreater : leaf.maxOrder < order
    · rw [if_pos hgreater]
      apply Represents.rooted hholds (hsubset mem_cons_self) hnew
      intro entry hentry
      rcases mem_append.mp hentry with hbefore | hlast
      · exact (hgreatest entry hbefore).trans hgreater.le
      · rw [mem_singleton.mp hlast]
    · rw [if_neg hgreater]
      apply Represents.rooted hholds (hsubset (mem_cons_of_mem _ hmem)) hold
      intro entry hentry
      rcases mem_append.mp hentry with hbefore | hlast
      · exact hgreatest entry hbefore
      · rw [mem_singleton.mp hlast]
        exact Nat.le_of_not_lt hgreater

end Insertion

theorem insertAll_spec {entries : List (Bounds U × Nat)}
    (h : Represents tree entries) (horders : ∀ entry ∈ entries, entry.2 ≤ entries.length)
    {bounds : List (Bounds U)} (hlength : entries.length + bounds.length < 2 ^ 32) :
    ∃ after, tree.insertAll bounds = some (after, naiveOrders entries bounds) := by
  induction bounds generalizing tree entries with
  | nil => exact ⟨tree, rfl⟩
  | cons first rest ih =>
    rw [length_cons] at hlength
    obtain ⟨inserted, hinserted, hrepresents⟩ := insert_spec h horders (by omega) first
    have hordersNext : ∀ entry ∈ entries ++ [(first, naiveOrder entries first)],
        entry.2 ≤ (entries ++ [(first, naiveOrder entries first)]).length := by
      intro entry hentry
      rw [length_append]
      rcases mem_append.mp hentry with hbefore | hlast
      · exact (horders entry hbefore).trans (le_succ _)
      · rw [mem_singleton.mp hlast]
        exact naiveOrder_le horders first
    obtain ⟨after, hafter⟩ := ih hrepresents hordersNext (by
      rw [length_append, length_singleton]
      omega)
    refine ⟨after, ?_⟩
    rw [insertAll, hinserted, bind_some, hafter, map_some, naiveOrders]

/-- Whatever was in the tree before it was cleared, each of the bounds inserted since
then gets the naive order. -/
theorem BoundsTree.gives_naive_orders (tree : BoundsTree U) {bounds : List (Bounds U)}
    (hlength : bounds.length < 2 ^ 32) :
    ∃ after, tree.clear.insertAll bounds = some (after, naiveOrders [] bounds) :=
  insertAll_spec .empty (by simp) (by rwa [length_nil, Nat.zero_add])

def overlappingBounds : List (Bounds Int) := [⟨⟨0, 0⟩, ⟨4, 4⟩⟩, ⟨⟨2, 2⟩, ⟨4, 4⟩⟩, ⟨⟨9, 9⟩, ⟨1, 1⟩⟩]

def usedTree : BoundsTree Int := ⟨[⟨⟨⟨0, 0⟩, ⟨1, 1⟩⟩, 1, .leaf 1⟩], some 0, some 0⟩

theorem usedTree_gives_orders : overlappingBounds.length < 2 ^ 32 ∧
    ∃ after, usedTree.clear.insertAll overlappingBounds = some (after, [1, 2, 1]) := by
  have hlength : overlappingBounds.length < 2 ^ 32 := by decide
  have horders : naiveOrders [] overlappingBounds = [1, 2, 1] := by decide
  obtain ⟨after, hafter⟩ := BoundsTree.gives_naive_orders usedTree hlength
  exact ⟨hlength, after, by rw [hafter, horders]⟩

end OpenGpui.Scene
