/-
Trees made from a sequence of items or changed at an end, and any combination of these
with insertions and appends: the list operations on the items, in a tree of the shape.
-/
import OpenGpui.SumTree.Append
import Mathlib.Data.List.ModifyLast

namespace OpenGpui.SumTrees

open List Nat

universe u v

namespace SumTree

/-! Runs of entries. -/

section Chunks

variable {α : Type u} (current entries : List α)

theorem flatten_chunks : (chunks current entries).flatten = current ++ entries := by
  induction entries generalizing current with
  | nil => cases current <;> simp [chunks]
  | cons entry entries ih =>
    rw [chunks]
    split
    · rw [flatten_cons, ih, append_assoc]
      rfl
    · rw [ih, append_assoc]
      rfl

theorem chunks_filled {current : List α} (hcurrent : current.length < 2 * treeBase)
    (entries : List α) :
    ∀ chunk ∈ chunks current entries, chunk ≠ [] ∧ chunk.length ≤ 2 * treeBase := by
  induction entries generalizing current with
  | nil =>
    intro chunk hchunk
    rw [chunks] at hchunk
    split at hchunk
    · exact absurd hchunk not_mem_nil
    · rename_i hne
      rw [mem_singleton.mp hchunk]
      exact ⟨fun hnil => hne (isEmpty_iff.mpr hnil), Nat.le_of_lt hcurrent⟩
  | cons entry entries ih =>
    intro chunk hchunk
    rw [chunks] at hchunk
    split at hchunk
    · rcases mem_cons.mp hchunk with rfl | hrest
      · exact ⟨by simp, by rw [length_append, length_singleton]; omega⟩
      · exact ih (by unfold treeBase; simp) chunk hrest
    · refine ih ?_ chunk hchunk
      rw [length_append, length_singleton]
      omega

theorem length_chunks_le : 2 * treeBase * (chunks current entries).length ≤
      current.length + entries.length + (2 * treeBase - 1) := by
  induction entries generalizing current with
  | nil =>
    rw [chunks]
    cases current with
    | nil => exact zero_le _
    | cons entry rest =>
      rw [if_neg (by simp)]
      simp only [length_cons, length_nil]
      omega
  | cons entry entries ih =>
    rw [chunks]
    split
    · have hrest := ih []
      simp only [length_cons, length_nil] at hrest ⊢
      unfold treeBase at *
      omega
    · have hrest := ih (current ++ [entry])
      simp only [length_append, length_cons, length_nil] at hrest ⊢
      omega

/-- A level of at least two nodes has fewer parents than nodes. -/
theorem length_chunks_lt {entries : List α} (htwo : 2 ≤ entries.length) :
    (chunks [] entries).length < entries.length := by
  have hle := length_chunks_le [] entries
  simp only [length_nil] at hle
  unfold treeBase at hle
  omega

end Chunks

/-! From a sequence of items. -/

variable {T : Type u} {S : Type v} [Summary S]

theorem toList_parents (height : Nat) (levels : List (List (SumTree T S))) :
    (levels.map (parentOf height)).flatMap toList = levels.flatten.flatMap toList := by
  induction levels with
  | nil => rfl
  | cons childTrees levels ih =>
    rw [map_cons, flatMap_cons, flatten_cons, flatMap_append, parentOf, toList_internal, ih]

variable [Item T S]

theorem leafOf_eq {items : List T} (hne : items ≠ []) :
    leafOf items = .leaf (sum (items.map Item.summary)) items (items.map Item.summary) := by
  obtain ⟨item, rest, rfl⟩ := exists_cons_of_ne_nil hne
  rw [leafOf, map_cons, sum_cons]

theorem toList_leaves {runs : List (List T)} (hruns : ∀ run ∈ runs, run ≠ []) :
    (runs.map leafOf : List (SumTree T S)).flatMap toList = runs.flatten := by
  induction runs with
  | nil => rfl
  | cons run runs ih =>
    rw [map_cons, flatMap_cons, flatten_cons, leafOf_eq (hruns run (by simp)),
      toList_leaf, ih fun other hother => hruns other (mem_cons_of_mem run hother)]

variable {height : Nat}

theorem buildLevels_spec {fuel : Nat} {nodes : List (SumTree T S)}
    (hnodes : ∀ node ∈ nodes, Shaped height node) (hfuel : nodes.length ≤ fuel + 1) :
    ∃ tree, buildLevels fuel height nodes = some tree ∧ Valid tree ∧
      tree.toList = nodes.flatMap toList := by
  induction fuel generalizing height nodes with
  | zero =>
    match nodes, hnodes, hfuel with
    | [], _, _ => exact ⟨.new, rfl, valid_new, rfl⟩
    | [node], hnodes, _ =>
      refine ⟨node, rfl, (hnodes node mem_cons_self).valid, ?_⟩
      rw [flatMap_singleton]
  | succ fuel ih =>
    match nodes, hnodes, hfuel with
    | [], _, _ => exact ⟨.new, rfl, valid_new, rfl⟩
    | [node], hnodes, _ =>
      refine ⟨node, rfl, (hnodes node mem_cons_self).valid, ?_⟩
      rw [flatMap_singleton]
    | first :: second :: rest, hnodes, hfuel =>
      have hfewer : (chunks [] (first :: second :: rest)).length <
          (first :: second :: rest).length := length_chunks_lt (by simp)
      have hitems := toList_parents (height + 1) (chunks [] (first :: second :: rest))
      rw [flatten_chunks, nil_append] at hitems
      rw [← hitems]
      refine ih ?_ (by rw [length_map]; omega)
      intro parent hparent
      obtain ⟨childTrees, hchunk, rfl⟩ := mem_map.mp hparent
      obtain ⟨hfilled, hfits⟩ :=
        chunks_filled (by unfold treeBase; simp) (first :: second :: rest) childTrees hchunk
      refine .parentOf hfilled hfits fun child hchild => hnodes child ?_
      have hmem : child ∈ (chunks [] (first :: second :: rest)).flatten :=
        mem_flatten.mpr ⟨childTrees, hchunk, hchild⟩
      rwa [flatten_chunks] at hmem

theorem fromIter_spec (items : List T) :
    ∃ tree, (fromIter items : Option (SumTree T S)) = some tree ∧ Valid tree ∧
      tree.toList = items := by
  have hfilled := @chunks_filled T [] (by unfold treeBase; simp) items
  have hnodes : ∀ node ∈ (chunks [] items).map leafOf, Shaped 0 (node : SumTree T S) := by
    intro node hnode
    obtain ⟨chunk, hchunk, rfl⟩ := mem_map.mp hnode
    obtain ⟨hne, hfits⟩ := hfilled chunk hchunk
    rw [leafOf_eq hne]
    exact .leaf_of hne hfits rfl
  obtain ⟨tree, hrun, hvalid, hitems⟩ := buildLevels_spec hnodes (le_succ _)
  refine ⟨tree, hrun, hvalid, hitems.trans ?_⟩
  rw [toList_leaves fun chunk hchunk => (hfilled chunk hchunk).1, flatten_chunks, nil_append]

variable {self : SumTree T S}

theorem extend_spec (hself : Valid self) (items : List T) :
    ∃ tree, self.extend items = some tree ∧ Valid tree ∧ tree.toList = self.toList ++ items := by
  obtain ⟨other, hother, hvalid, hitems⟩ := fromIter_spec (S := S) items
  rw [extend, hother, ← hitems]
  exact append_spec hself hvalid

/-! The first and the last item changed. -/

variable (f : T → T)

theorem updateLastChild_append (front : List (SumTree T S)) (child : SumTree T S) :
    updateLastChild f (front ++ [child]) = match updateLastRecursive f child with
      | some ⟨child', some summary⟩ => some (front ++ [child'], summary)
      | _ => none := by
  induction front with
  | nil =>
    rfl
  | cons first front ih =>
    cases front with
    | nil =>
      rw [cons_append, nil_append, updateLastChild]
      rw [nil_append] at ih
      rw [ih]
      rcases updateLastRecursive f child with _ | ⟨_, _ | _⟩ <;> rfl
    | cons second front =>
      rw [cons_append, cons_append, updateLastChild]
      rw [cons_append] at ih
      rw [ih]
      rcases updateLastRecursive f child with _ | ⟨_, _ | _⟩ <;> rfl

variable {tree : SumTree T S}

theorem updateLastRecursive_spec (htree : Shaped height tree) :
    ∃ tree', updateLastRecursive f tree = some ⟨tree', some tree'.summary⟩ ∧
      Shaped height tree' ∧ tree'.toList = tree.toList.modifyLast f := by
  induction htree with
  | leaf filled fits summaries total =>
    rename_i summary items itemSummaries
    obtain ⟨front, last, rfl⟩ : ∃ front last, items = front ++ [last] :=
      ⟨_, _, (dropLast_concat_getLast filled).symm⟩
    subst summaries
    rw [updateLastRecursive, map_append, map_singleton, getLast?_concat, getLast?_concat]
    simp only [setLast_append_singleton]
    rw [toList_leaf, modifyLast_concat, ← map_singleton, ← map_append]
    exact ⟨_, rfl, .leaf_of (by simp) (by simpa using fits) rfl, toList_leaf _ _ _⟩
  | @internal height summary childSummaries childTrees filled fits children summaries total ih =>
    obtain ⟨front, last, rfl⟩ : ∃ front last, childTrees = front ++ [last] :=
      ⟨_, _, (dropLast_concat_getLast filled).symm⟩
    obtain ⟨last', hlast', hshaped, hitems⟩ := ih last (by simp)
    have hsums : setLast ((front ++ [last]).map SumTree.summary) last'.summary =
        (front ++ [last']).map SumTree.summary := by
      rw [map_append, map_singleton, setLast_append_singleton, map_append, map_singleton]
    have hne : ((front ++ [last]).map SumTree.summary).isEmpty = false := by simp
    subst summaries
    rw [updateLastRecursive, updateLastChild_append, hlast']
    simp only [hne, hsums, Bool.false_eq_true, if_false]
    refine ⟨_, rfl, .parentOf (by simp) (by simpa using fits) ?_, ?_⟩
    · intro child hchild
      rcases mem_append.mp hchild with hfront | hlast
      · exact children child (mem_append_left _ hfront)
      · rw [mem_singleton.mp hlast]
        exact hshaped
    · rw [toList_internal, toList_internal, flatMap_append, flatMap_append, flatMap_singleton,
        flatMap_singleton, hitems, modifyLast_append_of_right_ne_nil]
      exact (children last (by simp)).toList_ne_nil

theorem modifyHead_append {α : Type u} (f : α → α) {front : List α} (hfront : front ≠ [])
    (back : List α) : (front ++ back).modifyHead f = front.modifyHead f ++ back := by
  obtain ⟨entry, rest, rfl⟩ := exists_cons_of_ne_nil hfront
  rfl

theorem updateFirstRecursive_spec (htree : Shaped height tree) :
    ∃ tree', updateFirstRecursive f tree = some ⟨tree', some tree'.summary⟩ ∧
      Shaped height tree' ∧ tree'.toList = tree.toList.modifyHead f := by
  induction htree with
  | leaf filled fits summaries total =>
    obtain ⟨first, rest, rfl⟩ := exists_cons_of_ne_nil filled
    subst summaries
    refine ⟨_, rfl, ?_, ?_⟩
    · have hne : f first :: rest ≠ [] := by simp
      exact .leaf_of hne (by simpa using fits) rfl
    · rw [toList_leaf, toList_leaf]
      rfl
  | @internal height summary childSummaries childTrees filled fits children summaries total ih =>
    obtain ⟨first, rest, rfl⟩ := exists_cons_of_ne_nil filled
    obtain ⟨first', hfirst', hshaped, hitems⟩ := ih first mem_cons_self
    subst summaries
    rw [map_cons, updateFirstRecursive, hfirst']
    have hne : first' :: rest ≠ [] := by simp
    refine ⟨_, rfl, .parentOf hne (by simpa using fits) ?_, ?_⟩
    · rintro child (_ | ⟨_, hchild⟩)
      · exact hshaped
      · exact children child (mem_cons_of_mem first hchild)
    · rw [toList_internal, toList_internal, flatMap_cons, flatMap_cons, hitems, modifyHead_append]
      exact (children first mem_cons_self).toList_ne_nil

theorem updateLast_spec (hself : Valid self) : ∃ tree, self.updateLast f = some tree ∧ Valid tree ∧
      tree.toList = self.toList.modifyLast f := by
  rcases hself with rfl | hself
  · exact ⟨.new, rfl, valid_new, rfl⟩
  · obtain ⟨tree, hrun, hshaped, hitems⟩ := updateLastRecursive_spec f hself
    exact ⟨tree, by rw [updateLast, hrun]; rfl, hshaped.valid, hitems⟩

theorem updateFirst_spec (hself : Valid self) :
    ∃ tree, self.updateFirst f = some tree ∧ Valid tree ∧
      tree.toList = self.toList.modifyHead f := by
  rcases hself with rfl | hself
  · exact ⟨.new, rfl, valid_new, rfl⟩
  · obtain ⟨tree, hrun, hshaped, hitems⟩ := updateFirstRecursive_spec f hself
    exact ⟨tree, by rw [updateFirst, hrun]; rfl, hshaped.valid, hitems⟩

/-! Any way to build a tree. -/

/-- A run of operations that builds a tree; a tree appended to another one is built by a run of
its own. -/
inductive Construction (T : Type u) where
  | fromIter (items : List T)
  | push (self : Construction T) (item : T)
  | append (self other : Construction T)
  | extend (self : Construction T) (items : List T)
  | updateFirst (self : Construction T) (f : T → T)
  | updateLast (self : Construction T) (f : T → T)

namespace Construction

/-- The operations on trees. -/
def build : Construction T → Option (SumTree T S)
  | fromIter items => SumTree.fromIter items
  | push self item => self.build.bind fun tree => tree.push item
  | append self other => self.build.bind fun tree => other.build.bind tree.append
  | extend self items => self.build.bind fun tree => tree.extend items
  | updateFirst self f => self.build.bind fun tree => tree.updateFirst f
  | updateLast self f => self.build.bind fun tree => tree.updateLast f

/-- The same operations on lists. -/
def items : Construction T → List T
  | fromIter items => items
  | push self item => self.items ++ [item]
  | append self other => self.items ++ other.items
  | extend self items => self.items ++ items
  | updateFirst self f => self.items.modifyHead f
  | updateLast self f => self.items.modifyLast f

/-- However a tree is built, no operation panics, its items are those of the list operations, and
it has the shape. -/
theorem build_refines_list (construction : Construction T) :
    ∃ tree : SumTree T S, construction.build = some tree ∧
      tree.toList = construction.items ∧ Valid tree ∧
      tree.summary = sum (construction.items.map Item.summary) := by
  suffices hbuild : ∃ tree : SumTree T S, construction.build = some tree ∧ Valid tree ∧
      tree.toList = construction.items by
    obtain ⟨tree, hrun, hvalid, hitems⟩ := hbuild
    exact ⟨tree, hrun, hitems, hvalid, hitems ▸ hvalid.summary_eq⟩
  induction construction with
  | fromIter items => exact fromIter_spec items
  | push self item ih =>
    obtain ⟨tree, hrun, hvalid, hitems⟩ := ih
    rw [build, hrun, items, ← hitems]
    exact push_spec hvalid item
  | append self other ih ihOther =>
    obtain ⟨tree, hrun, hvalid, hitems⟩ := ih
    obtain ⟨treeOther, hrunOther, hvalidOther, hitemsOther⟩ := ihOther
    rw [build, hrun, hrunOther, items, ← hitems, ← hitemsOther]
    exact append_spec hvalid hvalidOther
  | extend self more ih =>
    obtain ⟨tree, hrun, hvalid, hitems⟩ := ih
    rw [build, hrun, items, ← hitems]
    exact extend_spec hvalid more
  | updateFirst self f ih =>
    obtain ⟨tree, hrun, hvalid, hitems⟩ := ih
    rw [build, hrun, items, ← hitems]
    exact updateFirst_spec f hvalid
  | updateLast self f ih =>
    obtain ⟨tree, hrun, hvalid, hitems⟩ := ih
    rw [build, hrun, items, ← hitems]
    exact updateLast_spec f hvalid

end Construction

end SumTree

end OpenGpui.SumTrees
