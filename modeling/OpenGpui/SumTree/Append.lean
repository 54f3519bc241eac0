/-
Appending one tree to another: nothing but the items of both, in a tree of the shape.
-/
import OpenGpui.SumTree.Tree

namespace OpenGpui.SumTrees

open List Option

universe u v

namespace SumTree

variable {T : Type u} {S : Type v} {count : Nat}

theorem midpoint_bounds (hlow : 2 * treeBase < count) (hhigh : count ≤ 2 * (2 * treeBase)) :
    0 < midpoint count ∧ midpoint count ≤ 2 * treeBase ∧ midpoint count < count ∧
      count - midpoint count ≤ 2 * treeBase := by
  unfold midpoint treeBase at *
  omega

variable {α : Type u} {list : List α}

theorem take_ne_nil (hcount : 0 < count) (hlist : count ≤ list.length) : list.take count ≠ [] := by
  intro hnil
  have hlength := congrArg List.length hnil
  simp only [length_take, length_nil] at hlength
  omega

theorem drop_ne_nil (hlist : count < list.length) : list.drop count ≠ [] := by
  intro hnil
  have hlength := congrArg List.length hnil
  simp only [length_drop, length_nil] at hlength
  omega

/-- The items of a tree that may be missing. -/
def splitItems (split : Option (SumTree T S)) : List T := split.toList.flatMap toList

@[simp] theorem splitItems_none : splitItems (none : Option (SumTree T S)) = [] := rfl

@[simp] theorem splitItems_some (tree : SumTree T S) : splitItems (some tree) = tree.toList := by
  rw [splitItems, toList_some, flatMap_singleton]

theorem flatMap_take_append_drop (count : Nat) (trees : List (SumTree T S)) :
    (trees.take count).flatMap toList ++ (trees.drop count).flatMap toList =
      trees.flatMap toList := by
  rw [← flatMap_append, take_append_drop]

theorem setLast_append_singleton (front : List α) (old new : α) :
    setLast (front ++ [old]) new = front ++ [new] := by
  rw [setLast, dropLast_concat]

/-- Only the last child is pushed into. -/
theorem pushIntoLastChild_append [Summary S] (other : SumTree T S) (front : List (SumTree T S))
    (child : SumTree T S) :
    pushIntoLastChild other (front ++ [child]) = (pushTreeRecursive other child).map fun pushed =>
        (front ++ [pushed.tree], pushed.tree.summary, pushed.split) := by
  induction front with
  | nil =>
    rw [nil_append, pushIntoLastChild]
    cases pushTreeRecursive other child <;> rfl
  | cons first front ih =>
    cases front with
    | nil =>
      rw [cons_append, nil_append, pushIntoLastChild]
      rw [nil_append] at ih
      rw [ih]
      cases pushTreeRecursive other child <;> rfl
    | cons second front =>
      rw [cons_append, cons_append, pushIntoLastChild]
      rw [cons_append] at ih
      rw [ih]
      cases pushTreeRecursive other child <;> rfl

theorem toList_fromChildTrees [Summary S] (left right : SumTree T S) :
    (fromChildTrees left right).toList = left.toList ++ right.toList := by
  rw [fromChildTrees, toList_internal, flatMap_cons, flatMap_singleton]

variable [Summary S] [Item T S]

/-! Nodes cut in two. -/

variable {height : Nat} {count : Nat}

theorem Shaped.internal_take_drop {trees : List (SumTree T S)}
    (htrees : ∀ tree ∈ trees, Shaped height tree) (hlow : 0 < count)
    (hfits : count ≤ 2 * treeBase) (hhigh : count < trees.length)
    (hrest : trees.length - count ≤ 2 * treeBase) :
    Shaped (height + 1) (.internal (height + 1)
        (sum ((trees.map SumTree.summary).take count)) ((trees.map SumTree.summary).take count)
        (trees.take count)) ∧
      Shaped (height + 1) (.internal (height + 1)
        (sum ((trees.map SumTree.summary).drop count)) ((trees.map SumTree.summary).drop count)
        (trees.drop count)) := by
  rw [← map_take, ← map_drop]
  constructor
  · exact .parentOf (take_ne_nil hlow (Nat.le_of_lt hhigh))
      (by rw [length_take]; omega) fun tree htree => htrees tree (mem_of_mem_take htree)
  · exact .parentOf (drop_ne_nil hhigh)
      (by rwa [length_drop]) fun tree htree => htrees tree (mem_of_mem_drop htree)

variable {items : List T}

theorem Shaped.leaf_take_drop (hlow : 0 < count)
    (hfits : count ≤ 2 * treeBase) (hhigh : count < items.length)
    (hrest : items.length - count ≤ 2 * treeBase) :
    Shaped 0 (.leaf (sum ((items.map Item.summary).take count)) (items.take count)
        ((items.map Item.summary).take count)) ∧
      Shaped 0 (.leaf (sum ((items.map Item.summary).drop count)) (items.drop count)
        ((items.map Item.summary).drop count)) := by
  rw [← map_take, ← map_drop]
  constructor
  · exact .leaf_of (take_ne_nil hlow (Nat.le_of_lt hhigh)) (by rw [length_take]; omega) rfl
  · exact .leaf_of (drop_ne_nil hhigh) (by rwa [length_drop]) rfl

/-! A tree pushed into a node of its height or more. -/

/-- The node after an insertion at its right end and the one split off it hold the items. -/
structure Pushed.Holds (height : Nat) (items : List T) (pushed : Pushed T S) : Prop where
  tree : Shaped height pushed.tree
  split : ∀ tree ∈ pushed.split, Shaped height tree
  items : pushed.tree.toList ++ splitItems pushed.split = items

theorem pushChildren_holds {summary : S} {childTrees treesToAppend : List (SumTree T S)}
    (hne : childTrees ≠ []) (hfits : childTrees.length ≤ 2 * treeBase)
    (hmore : treesToAppend.length ≤ 2 * treeBase)
    (hchildren : ∀ child ∈ childTrees, Shaped height child)
    (happend : ∀ child ∈ treesToAppend, Shaped height child) (hsummary : summary =
      sum (((childTrees ++ treesToAppend).flatMap toList).map Item.summary)) :
    (pushChildren (height + 1) summary (childTrees.map SumTree.summary) childTrees
      (treesToAppend.map SumTree.summary) treesToAppend).Holds (height + 1)
      ((childTrees ++ treesToAppend).flatMap toList) := by
  have hall : ∀ child ∈ childTrees ++ treesToAppend, Shaped height child := by
    intro child hchild
    exact (mem_append.mp hchild).elim (hchildren child) (happend child)
  have hlength : (childTrees ++ treesToAppend).length = childTrees.length + treesToAppend.length :=
    length_append
  rw [pushChildren]
  by_cases hfull : childTrees.length + treesToAppend.length > 2 * treeBase
  · obtain ⟨hlow, hmid, hhigh, hrest⟩ := midpoint_bounds hfull (by omega)
    have hboth := Shaped.internal_take_drop hall hlow hmid (by rwa [hlength]) (by rwa [hlength])
    rw [if_pos hfull, ← map_append]
    refine ⟨hboth.1, ?_, ?_⟩
    · rintro tree ⟨⟩
      exact hboth.2
    · simp only [splitItems_some, toList_internal]
      exact flatMap_take_append_drop _ _
  · rw [if_neg hfull, ← map_append]
    refine ⟨.internal_of (by simp [hne]) (by omega) hall hsummary, ?_, ?_⟩
    · rintro tree ⟨⟩
    · simp only [splitItems_none, toList_internal, append_nil]

theorem pushItems_holds {otherItems : List T} {otherSummary : S} (hne : items ≠ [])
    (hother : otherItems ≠ []) (hfits : items.length ≤ 2 * treeBase)
    (hmore : otherItems.length ≤ 2 * treeBase)
    (hsummary : otherSummary = sum (otherItems.map Item.summary)) :
    (pushItems (sum (items.map Item.summary)) items (items.map Item.summary) otherSummary
      otherItems (otherItems.map Item.summary) : Pushed T S).Holds 0 (items ++ otherItems) := by
  have hlength : (items ++ otherItems).length = items.length + otherItems.length := length_append
  rw [pushItems]
  by_cases hfull : items.length + otherItems.length > 2 * treeBase
  · obtain ⟨hlow, hmid, hhigh, hrest⟩ := midpoint_bounds hfull (by omega)
    have hboth := @Shaped.leaf_take_drop T S _ _ _ (items ++ otherItems) hlow hmid
      (by rwa [hlength]) (by rwa [hlength])
    rw [if_pos hfull, ← map_append]
    refine ⟨hboth.1, ?_, ?_⟩
    · rintro tree ⟨⟩
      exact hboth.2
    · simp only [splitItems_some, toList_leaf]
      exact take_append_drop _ _
  · rw [if_neg hfull, ← map_append, hsummary]
    refine ⟨.leaf_of (by simp [hne]) (by omega) (sum_map_append _ hother).symm, ?_, ?_⟩
    · rintro tree ⟨⟩
    · simp only [splitItems_none, toList_leaf, append_nil]

variable {self : SumTree T S}

theorem pushTreeRecursive_holds (hself : Shaped height self) :
    ∀ {otherHeight : Nat} {other : SumTree T S}, Shaped otherHeight other → otherHeight ≤ height →
        ∃ pushed, pushTreeRecursive other self = some pushed ∧
          pushed.Holds height (self.toList ++ other.toList) := by
  induction hself with
  | leaf filled fits summaries total =>
    intro otherHeight other hother hle
    obtain rfl : otherHeight = 0 := by omega
    cases hother with
    | leaf filled' fits' summaries' total' =>
      subst summaries total summaries'
      refine ⟨_, rfl, ?_⟩
      exact pushItems_holds filled filled' fits fits' total'
  | @internal height summary childSummaries childTrees filled fits children summaries total ih =>
    intro otherHeight other hother hle
    have hself : Shaped (height + 1) (.internal (height + 1) summary childSummaries childTrees) :=
      .internal filled fits children summaries total
    have hsum : summary + other.summary =
        sum ((childTrees.flatMap toList ++ other.toList).map Item.summary) := by
      rw [sum_map_append _ hother.toList_ne_nil, ← hother.summary_eq]
      have := hself.summary_eq
      rw [toList_internal] at this
      rw [← this]
      rfl
    rw [pushTreeRecursive, if_neg (by rw [hother.height_eq]; omega), hother.height_eq,
      toList_internal, summaries]
    by_cases hequal : height + 1 - otherHeight = 0
    · -- the other tree has the same height: its children join this node's
      obtain rfl : otherHeight = height + 1 := by omega
      rw [if_pos hequal]
      cases hother with
      | internal filled' fits' children' summaries' total' =>
        subst summaries'
        rw [toList_internal, ← flatMap_append] at hsum ⊢
        exact ⟨_, rfl, pushChildren_holds filled fits fits' children children' hsum⟩
    · rw [if_neg hequal]
      by_cases hchild : height + 1 - otherHeight = 1 ∧ (!other.isUnderflowing) = true
      · -- it has the height of a child and is large enough to be one
        obtain rfl : otherHeight = height := by omega
        rw [if_pos hchild]
        refine ⟨_, rfl, ?_⟩
        have happend : ∀ child ∈ [other], Shaped otherHeight child := by
          intro child hmem
          rw [mem_singleton.mp hmem]
          exact hother
        have hitems : (childTrees ++ [other]).flatMap toList =
            childTrees.flatMap toList ++ other.toList := by
          rw [flatMap_append, flatMap_singleton]
        have hone : [other].length ≤ 2 * treeBase := by unfold treeBase; simp
        rw [← hitems] at hsum ⊢
        exact pushChildren_holds filled fits hone children happend hsum
      · -- otherwise it goes into the last child
        rw [if_neg hchild]
        obtain ⟨front, last, rfl⟩ : ∃ front last, childTrees = front ++ [last] :=
          ⟨_, _, (dropLast_concat_getLast filled).symm⟩
        obtain ⟨pushed, hpushed, hholds⟩ := ih last (by simp) hother (by omega)
        have hitems : (front ++ [pushed.tree] ++ pushed.split.toList).flatMap toList =
            (front ++ [last]).flatMap toList ++ other.toList := by
          rw [flatMap_append, flatMap_append, flatMap_append, flatMap_singleton, flatMap_singleton,
            append_assoc, append_assoc, ← hholds.items]
          rfl
        have hsums : setLast ((front ++ [last]).map SumTree.summary) pushed.tree.summary =
            (front ++ [pushed.tree]).map SumTree.summary := by
          rw [map_append, map_singleton, setLast_append_singleton, map_append, map_singleton]
        rw [pushIntoLastChild_append, hpushed]
        simp only [map_some, hsums]
        refine ⟨_, if_neg (by simp), ?_⟩
        rw [← hitems] at hsum ⊢
        refine pushChildren_holds (by simp) (by simpa using fits) ?_ ?_ ?_ hsum
        · cases pushed.split <;> simp [treeBase]
        · intro child hchild
          rcases mem_append.mp hchild with hfront | hlast
          · exact children child (mem_append_left _ hfront)
          · rw [mem_singleton.mp hlast]
            exact hholds.tree
        · intro child hchild
          exact hholds.split child (mem_toList.mp hchild)

/-! A smaller tree put in front of a larger one. -/

/-- The node after an insertion at its left end and the one split off it hold the items. -/
structure Merged.Holds (height : Nat) (items : List T) (merged : Merged T S) : Prop where
  split : ∀ tree ∈ merged.split, Shaped height tree
  large : Shaped height merged.large
  items : splitItems merged.split ++ merged.large.toList = items

theorem half_bounds (hlow : 2 * treeBase < count) (hhigh : count ≤ 2 * (2 * treeBase)) :
    0 < (count + 1) / 2 ∧ (count + 1) / 2 ≤ 2 * treeBase ∧ (count + 1) / 2 < count ∧
      count - (count + 1) / 2 ≤ 2 * treeBase := by
  unfold treeBase at *
  omega

variable {large : SumTree T S} {small : SumTree T S}

theorem mergeIntoRight_holds (hsmall : Shaped height small) (hlarge : Shaped height large) :
    ∃ merged, mergeIntoRight small large = some merged ∧
      merged.Holds height (small.toList ++ large.toList) := by
  cases hsmall with
  | @leaf _ smallItems _ filled fits summaries total =>
    cases hlarge with
    | @leaf _ items _ filled' fits' summaries' total' =>
      subst summaries total summaries' total'
      have hlength : (smallItems ++ items).length = smallItems.length + items.length :=
        length_append
      by_cases hfit : smallItems.length + items.length ≤ 2 * treeBase
      · refine ⟨_, if_pos hfit, ?_, ?_, by simp⟩
        · rintro tree ⟨⟩
        · rw [← map_append]
          exact .leaf_of (by simp [filled]) (by omega) (sum_map_append _ filled').symm
      · obtain ⟨hlow, hmid, hhigh, hrest⟩ :=
          half_bounds (Nat.not_le.mp hfit) (by omega)
        have hboth := @Shaped.leaf_take_drop T S _ _ _ (smallItems ++ items) hlow hmid
          (by rwa [hlength]) (by rwa [hlength])
        refine ⟨_, if_neg hfit, ?_⟩
        rw [← map_append]
        refine ⟨?_, hboth.2, ?_⟩
        · rintro tree ⟨⟩
          exact hboth.1
        · simp only [splitItems_some, toList_leaf]
          exact take_append_drop _ _
  | @internal level _ _ smallTrees filled fits children summaries total =>
    cases hlarge with
    | @internal _ _ _ trees filled' fits' children' summaries' total' =>
      subst summaries total summaries' total'
      have hall : ∀ child ∈ smallTrees ++ trees, Shaped level child := by
        intro child hchild
        exact (mem_append.mp hchild).elim (children child) (children' child)
      have hlength : (smallTrees ++ trees).length = smallTrees.length + trees.length :=
        length_append
      by_cases hfit : trees.length + smallTrees.length ≤ 2 * treeBase
      · refine ⟨_, if_pos hfit, ?_, ?_, by simp⟩
        · rintro tree ⟨⟩
        · rw [← map_append]
          refine .internal_of (by simp [filled]) (by omega) hall ?_
          rw [Shaped.sum_children children, Shaped.sum_children children',
            flatMap_append, sum_map_append]
          exact flatMap_toList_ne_nil filled' children'
      · obtain ⟨hlow, hmid, hhigh, hrest⟩ :=
          half_bounds (Nat.not_le.mp hfit) (by omega)
        have hboth := Shaped.internal_take_drop hall hlow hmid (by omega) (by omega)
        refine ⟨_, if_neg hfit, ?_⟩
        rw [← map_append]
        refine ⟨?_, hboth.2, ?_⟩
        · rintro tree ⟨⟩
          exact hboth.1
        · simp only [splitItems_some, toList_internal]
          rw [flatMap_take_append_drop, flatMap_append]

theorem appendLevel_holds (hsmall : Shaped height small) (hlarge : Shaped height large) :
    ∃ merged, appendLevel small large = some merged ∧
      merged.Holds height (small.toList ++ large.toList) := by
  rw [appendLevel]
  cases small.isUnderflowing with
  | true => exact mergeIntoRight_holds hsmall hlarge
  | false =>
    refine ⟨_, rfl, ?_, hlarge, by simp⟩
    rintro tree ⟨⟩
    exact hsmall

/-- A first child that took items in at its left end, with a tree split off it or not. -/
theorem insertFirstChild_holds {summary : S} {merged : Merged T S}
    {restTrees : List (SumTree T S)} (hmerged : merged.Holds height items)
    (hrest : ∀ child ∈ restTrees, Shaped height child) (hfits : restTrees.length + 1 ≤ 2 * treeBase)
    (hsummary : summary = sum ((items ++ restTrees.flatMap toList).map Item.summary)) :
    (insertFirstChild (height + 1) summary
        (merged.large.summary :: restTrees.map SumTree.summary) (merged.large :: restTrees)
        merged.split).Holds (height + 1) (items ++ restTrees.flatMap toList) := by
  obtain ⟨split, large⟩ := merged
  obtain ⟨hsplit, hlarge, rfl⟩ := hmerged
  have hkids : ∀ child ∈ large :: restTrees, Shaped height child := by
    rintro child (_ | ⟨_, hchild⟩)
    · exact hlarge
    · exact hrest child hchild
  rw [← map_cons]
  cases split with
  | none =>
    rw [insertFirstChild]
    refine ⟨by rintro tree ⟨⟩, .internal_of (by simp) hfits hkids ?_, ?_⟩
    · simpa using hsummary
    · simp
  | some tree =>
    have htree : Shaped height tree := hsplit tree rfl
    have hwith : ∀ child ∈ tree :: large :: restTrees, Shaped height child := by
      rintro child (_ | ⟨_, hchild⟩)
      · exact htree
      · exact hkids child hchild
    rw [insertFirstChild]
    by_cases hroom : (large :: restTrees).length < 2 * treeBase
    · rw [if_pos hroom, ← map_cons]
      refine ⟨by rintro tree ⟨⟩, .internal_of (by simp) hroom hwith ?_, ?_⟩
      · simpa using hsummary
      · simp
    · rw [if_neg hroom, ← map_take, ← map_cons, ← map_drop]
      have hfull : (large :: restTrees).length = 2 * treeBase := by
        simp only [length_cons] at hroom ⊢
        omega
      refine ⟨?_, .parentOf (drop_ne_nil ?_) ?_ fun child hchild =>
        hkids child (mem_of_mem_drop hchild), ?_⟩
      · rintro left ⟨⟩
        refine .parentOf (by simp) ?_ ?_
        · rw [length_cons, length_take, hfull]
          decide
        · rintro child (_ | ⟨_, hchild⟩)
          · exact htree
          · exact hkids child (mem_of_mem_take hchild)
      · rw [hfull]
        decide
      · rw [length_drop, hfull]
        decide
      · simp only [splitItems_some, toList_internal]
        rw [flatMap_cons, append_assoc, flatMap_take_append_drop, flatMap_cons, append_assoc]

theorem appendLarge_holds (hlarge : Shaped height large) :
    ∀ {smallHeight : Nat} {small : SumTree T S}, Shaped smallHeight small → smallHeight ≤ height →
        ∃ merged, appendLarge small large = some merged ∧
          merged.Holds height (small.toList ++ large.toList) := by
  induction hlarge with
  | leaf filled fits summaries total =>
    intro smallHeight small hsmall hle
    obtain rfl : smallHeight = 0 := by omega
    rw [appendLarge, if_pos hsmall.height_eq]
    exact appendLevel_holds hsmall (.leaf filled fits summaries total)
  | @internal height summary childSummaries childTrees filled fits children summaries total ih =>
    intro smallHeight small hsmall hle
    have hlarge : Shaped (height + 1) (.internal (height + 1) summary childSummaries childTrees) :=
      .internal filled fits children summaries total
    have hsum := hlarge.summary_eq
    obtain ⟨first, restTrees, rfl⟩ := exists_cons_of_ne_nil filled
    subst summaries
    rw [map_cons] at hlarge hsum ⊢
    rw [appendLarge, hsmall.height_eq]
    by_cases hequal : smallHeight = height + 1
    · subst hequal
      rw [if_pos rfl]
      exact appendLevel_holds hsmall hlarge
    · rw [if_neg hequal]
      obtain ⟨merged, hmerged, hholds⟩ := ih first mem_cons_self hsmall (by omega)
      have hitems : small.toList ++ (internal (height + 1) summary
          (first.summary :: restTrees.map SumTree.summary) (first :: restTrees)).toList =
            small.toList ++ first.toList ++ restTrees.flatMap toList := by
        rw [toList_internal, flatMap_cons, append_assoc]
      rw [hmerged, hitems]
      refine ⟨_, rfl, insertFirstChild_holds hholds
        (fun child hchild => children child (mem_cons_of_mem first hchild)) fits ?_⟩
      rw [← hitems, sum_map_append _ hlarge.toList_ne_nil, ← hsmall.summary_eq]
      exact congrArg _ hsum

theorem fromChildTrees_shaped {left right : SumTree T S}
    (hleft : Shaped height left) (hright : Shaped height right) :
    Shaped (height + 1) (fromChildTrees left right) := by
  rw [fromChildTrees, hleft.height_eq]
  refine .internal (by simp) (by unfold treeBase; simp) ?_ rfl rfl
  rintro child (_ | ⟨_, _ | ⟨_, ⟨⟩⟩⟩)
  · exact hleft
  · exact hright

/-- Appending never panics, and the result holds the items of both trees in order. -/
theorem append_spec {other : SumTree T S} (hself : Valid self) (hother : Valid other) :
    ∃ tree, self.append other = some tree ∧ Valid tree ∧
      tree.toList = self.toList ++ other.toList := by
  rw [append]
  cases hselfEmpty : self.isEmpty with
  | true =>
    refine ⟨other, rfl, hother, ?_⟩
    rw [hself.isEmpty_iff.mp hselfEmpty, nil_append]
  | false =>
    cases hotherEmpty : other.isEmpty with
    | true =>
      refine ⟨self, rfl, hself, ?_⟩
      rw [hother.isEmpty_iff.mp hotherEmpty, append_nil]
    | false =>
      have hselfShaped := hself.shaped hselfEmpty
      have hotherShaped := hother.shaped hotherEmpty
      by_cases hlower : self.height < other.height
      · obtain ⟨⟨split, large⟩, hmerged, hsplit, hlarge, hitems⟩ :=
          appendLarge_holds hotherShaped hselfShaped (Nat.le_of_lt hlower)
        rw [if_pos hlower, hmerged]
        refine ⟨_, rfl, ?_⟩
        cases split with
        | none => exact ⟨hlarge.valid, hitems⟩
        | some tree =>
          refine ⟨(fromChildTrees_shaped (hsplit tree rfl) hlarge).valid, ?_⟩
          rw [← hitems, splitItems_some]
          exact toList_fromChildTrees _ _
      · obtain ⟨⟨tree, split⟩, hpushed, htree, hsplit, hitems⟩ :=
          pushTreeRecursive_holds hselfShaped hotherShaped (Nat.not_lt.mp hlower)
        rw [if_neg hlower, hpushed]
        refine ⟨_, rfl, ?_⟩
        cases split with
        | none => exact ⟨htree.valid, by rw [← hitems]; simp⟩
        | some splitTree =>
          refine ⟨(fromChildTrees_shaped htree (hsplit splitTree rfl)).valid, ?_⟩
          rw [← hitems, splitItems_some]
          exact toList_fromChildTrees _ _

theorem push_spec (hself : Valid self) (item : T) :
    ∃ tree, self.push item = some tree ∧ Valid tree ∧ tree.toList = self.toList ++ [item] := by
  have hleaf : Shaped 0 (leaf (Item.summary item) [item] [Item.summary item] : SumTree T S) :=
    .leaf (by simp) (by unfold treeBase; simp) rfl (sum_singleton _).symm
  obtain ⟨tree, hrun, hvalid, hitems⟩ := append_spec hself hleaf.valid
  exact ⟨tree, hrun, hvalid, by rw [hitems, toList_leaf]⟩

end SumTree

end OpenGpui.SumTrees
