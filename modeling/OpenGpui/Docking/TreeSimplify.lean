/-
Simplification on trees: empty stacks go, a split with one remaining child becomes
that child, and a split inside a split of the same axis is dissolved into it.
-/
import OpenGpui.Docking.Tree

namespace OpenGpui.Docking.DockTree

open List Option

open UiCore

def splitAxis : DockTree → Option SplitAxis
  | split _ axis _ _ => some axis
  | _ => none

/-- The children that remain, each with its share; a missing fraction counts as one. -/
def keepShares : List (Option DockTree) → List Scalar → List (DockTree × Scalar)
  | [], _ => []
  | none :: rest, fractions => keepShares rest fractions.tail
  | some child :: rest, fractions => (child, fractions.headD 1) :: keepShares rest fractions.tail

/-- A child with its share, or the children of a same-axis split with theirs. -/
def flattenShare (axis : SplitAxis) (entry : DockTree × Scalar) : List (DockTree × Scalar) :=
  match entry.1 with
  | split _ childAxis grandChildren grandFractions =>
    if childAxis ≠ axis then [entry]
    else grandChildren.zip ((normalizeSplitFractions grandFractions).map (entry.2 * ·))
  | _ => [entry]

def flatten (axis : SplitAxis) (kept : List (DockTree × Scalar)) : List (DockTree × Scalar) :=
  kept.flatMap (flattenShare axis)

/-- What remains of a split whose children are already simplified. -/
def settle (id : DockNodeId) (axis : SplitAxis) : List (DockTree × Scalar) → Option DockTree
  | [] => none
  | [only] => some only.1
  | kept =>
    match flatten axis kept with
    | [] => none
    | [only] => some only.1
    | flat => some (split id axis (flat.map Prod.fst)
        (normalizeSplitFractions (flat.map Prod.snd)))

def simplify : DockTree → Option DockTree
  | tabs id items selected => if items.isEmpty then none else some (tabs id items selected)
  | floating id child => (simplify child).map (floating id)
  | split id axis children fractions =>
    settle id axis (keepShares (children.map simplify) fractions)

/-- The trees simplification produces. -/
inductive Settled : DockTree → Prop
  | tabs {id : DockNodeId} {items : List DockItemId} {selected : Option DockItemId} :
      items ≠ [] → Settled (tabs id items selected)
  | floating {id : DockNodeId} {child : DockTree} : Settled child → Settled (floating id child)
  | split {id : DockNodeId} {axis : SplitAxis} {children : List DockTree}
      {fractions : List Scalar} :
      2 ≤ children.length → children.length = fractions.length → Normalized fractions →
      (∀ child ∈ children, child.splitAxis ≠ some axis) → (∀ child ∈ children, Settled child) →
      Settled (split id axis children fractions)

/-- Every share belongs to a child that remains. -/
theorem mem_of_mem_keepShares {children : List (Option DockTree)} {fractions : List Scalar}
    {entry : DockTree × Scalar} (h : entry ∈ keepShares children fractions) :
    some entry.1 ∈ children := by
  induction children generalizing fractions with
  | nil => cases h
  | cons child rest ih =>
    cases child with
    | none => exact mem_cons_of_mem _ (ih h)
    | some child =>
      rcases mem_cons.mp h with rfl | hrest
      · exact mem_cons_self
      · exact mem_cons_of_mem _ (ih hrest)

section Flatten

variable {axis : SplitAxis} {kept : List (DockTree × Scalar)} {entry : DockTree × Scalar}

theorem flattenShare_of_ne (h : entry.1.splitAxis ≠ some axis) :
    flattenShare axis entry = [entry] := by
  obtain ⟨tree, share⟩ := entry
  cases tree with
  | tabs id items selected => rfl
  | floating id child => rfl
  | split id childAxis grandChildren grandFractions =>
    exact if_pos fun heq => h (congrArg some heq)

/-- A settled same-axis split gives up all of its children. -/
theorem flattenShare_map_fst_of_eq (hsettled : Settled entry.1)
    (h : entry.1.splitAxis = some axis) :
    (flattenShare axis entry).map Prod.fst = entry.1.children := by
  obtain ⟨tree, share⟩ := entry
  cases hsettled with
  | tabs hne => cases h
  | floating hchild => cases h
  | @split id childAxis kids fractions htwo hlen hnormal hother hchildren =>
    cases h
    have hne : fractions ≠ [] := ne_nil_of_length_pos (by omega)
    simp only [flattenShare, ne_eq, not_true_eq_false, if_false, children]
    rw [map_fst_zip]
    rw [length_map, normalizeSplitFractions_length hne, hlen]

theorem flattenShare_map_fst (hsettled : Settled entry.1) : (flattenShare axis entry).map Prod.fst =
      if entry.1.splitAxis = some axis then entry.1.children else [entry.1] := by
  by_cases h : entry.1.splitAxis = some axis
  · rw [if_pos h, flattenShare_map_fst_of_eq hsettled h]
  · rw [if_neg h, flattenShare_of_ne h]
    rfl

variable (axis) in
theorem flatten_map_fst (hkept : ∀ entry ∈ kept, Settled entry.1) :
    (flatten axis kept).map Prod.fst = kept.flatMap fun entry =>
      if entry.1.splitAxis = some axis then entry.1.children else [entry.1] := by
  rw [flatten, map_flatMap]
  exact flatMap_congr fun entry hentry => flattenShare_map_fst (hkept entry hentry)

theorem Settled.of_child {tree child : DockTree} (h : Settled tree)
    (hchild : child ∈ tree.children) : Settled child := by
  cases h with
  | tabs hne => cases hchild
  | floating hbelow =>
    obtain rfl := mem_singleton.mp hchild
    exact hbelow
  | split htwo hlen hnormal hother hbelow => exact hbelow child hchild

variable (axis) in
/-- Flattening leaves settled trees, none of which splits along the axis. -/
theorem flatten_settled (hkept : ∀ entry ∈ kept, Settled entry.1) :
    ∀ entry ∈ flatten axis kept, Settled entry.1 ∧ entry.1.splitAxis ≠ some axis := by
  intro entry hentry
  have hmem : entry.1 ∈ (flatten axis kept).map Prod.fst := mem_map_of_mem hentry
  rw [flatten_map_fst _ hkept] at hmem
  obtain ⟨⟨parent, share⟩, hparent, htree⟩ := mem_flatMap.mp hmem
  have hsettled : Settled parent := hkept _ hparent
  by_cases h : parent.splitAxis = some axis
  · rw [if_pos h] at htree
    refine ⟨hsettled.of_child htree, ?_⟩
    cases hsettled with
    | tabs hne => cases h
    | floating hbelow => cases h
    | split htwo hlen hnormal hother hbelow =>
      cases h
      exact hother _ htree
  · rw [if_neg h, mem_singleton] at htree
    rw [htree]
    exact ⟨hsettled, h⟩

theorem Settled.two_le_children {tree : DockTree} (h : Settled tree)
    (haxis : tree.splitAxis = some axis) : 2 ≤ tree.children.length := by
  cases h with
  | tabs hne | floating hbelow => cases haxis
  | split htwo hlen hnormal hother hbelow => exact htwo

variable (axis) in
theorem length_le_flatten (hkept : ∀ entry ∈ kept, Settled entry.1) :
    kept.length ≤ (flatten axis kept).length := by
  have hmap := congrArg List.length (flatten_map_fst axis hkept)
  rw [length_map] at hmap
  rw [hmap]
  clear hmap
  induction kept with
  | nil => simp
  | cons entry rest ih =>
    have hrest := ih fun other hother => hkept other (mem_cons_of_mem _ hother)
    rw [flatMap_cons, length_append, length_cons]
    by_cases h : entry.1.splitAxis = some axis
    · have htwo := (hkept entry mem_cons_self).two_le_children h
      rw [if_pos h]
      omega
    · rw [if_neg h, length_singleton]
      omega

variable (axis) in
theorem flatten_leaves (hkept : ∀ entry ∈ kept, Settled entry.1) :
    ((flatten axis kept).map Prod.fst).flatMap leaves =
      kept.flatMap fun entry => entry.1.leaves := by
  rw [flatten_map_fst _ hkept, flatMap_assoc]
  apply flatMap_congr
  intro entry hentry
  obtain ⟨tree, share⟩ := entry
  cases tree with
  | tabs id items selected | floating id child => simp [splitAxis]
  | split id childAxis kids fractions =>
    by_cases h : childAxis = axis <;> simp [splitAxis, h, children]

variable (axis) in
theorem flatten_ids_sublist (hkept : ∀ entry ∈ kept, Settled entry.1) :
    (((flatten axis kept).map Prod.fst).flatMap ids).Sublist
      (kept.flatMap fun entry => entry.1.ids) := by
  rw [flatten_map_fst _ hkept, flatMap_assoc]
  clear hkept
  induction kept with
  | nil => simp
  | cons entry rest ih =>
    rw [flatMap_cons, flatMap_cons]
    refine List.Sublist.append ?_ ih
    by_cases h : entry.1.splitAxis = some axis
    · rw [if_pos h, ids_eq entry.1]
      exact sublist_cons_self _ _
    · rw [if_neg h]
      simp

end Flatten

section Settle

variable {id : DockNodeId} {axis : SplitAxis} {kept : List (DockTree × Scalar)}

/-- With two children or more the split survives, flattened. -/
theorem settle_of_two_le (hkept : ∀ entry ∈ kept, Settled entry.1) (htwo : 2 ≤ kept.length) :
    settle id axis kept = some (split id axis ((flatten axis kept).map Prod.fst)
      (normalizeSplitFractions ((flatten axis kept).map Prod.snd))) := by
  have hlen := length_le_flatten axis hkept
  rw [settle]
  · cases hflat : flatten axis kept with
    | nil =>
      rw [hflat, length_nil] at hlen
      omega
    | cons first rest =>
      cases rest with
      | nil =>
        rw [hflat, length_singleton] at hlen
        omega
      | cons second rest => rfl
  · rintro rfl
    simp at htwo
  · rintro only rfl
    simp at htwo

variable (id axis) in
/-- A split without children goes, one with a single child becomes that child, and
one with more survives. -/
theorem settle_cases (hkept : ∀ entry ∈ kept, Settled entry.1) :
    (kept = [] ∧ settle id axis kept = none) ∨
      (∃ only, kept = [only] ∧ settle id axis kept = some only.1) ∨
      (2 ≤ kept.length ∧ settle id axis kept =
        some (split id axis ((flatten axis kept).map Prod.fst)
          (normalizeSplitFractions ((flatten axis kept).map Prod.snd)))) := by
  cases kept with
  | nil => exact .inl ⟨rfl, rfl⟩
  | cons first rest =>
    cases rest with
    | nil => exact .inr (.inl ⟨first, rfl, rfl⟩)
    | cons second rest =>
      have htwo : 2 ≤ (first :: second :: rest).length := by simp
      exact .inr (.inr ⟨htwo, settle_of_two_le hkept htwo⟩)

variable (hkept : ∀ entry ∈ kept, Settled entry.1)

include hkept

theorem settle_settled {tree : DockTree} (h : settle id axis kept = some tree) : Settled tree := by
  rcases settle_cases id axis hkept with
    ⟨_, hnone⟩ | ⟨only, rfl, honly⟩ | ⟨htwo, hsplit⟩
  · rw [hnone] at h
    cases h
  · cases h
    exact hkept only (mem_singleton_self _)
  · rw [hsplit] at h
    cases h
    have hlen := length_le_flatten axis hkept
    have hflat := flatten_settled axis hkept
    have hne : (flatten axis kept).map Prod.snd ≠ [] :=
      ne_nil_of_length_pos (by rw [length_map]; omega)
    refine Settled.split ?_ ?_ (normalizeSplitFractions_normalized _) ?_ ?_
    · rw [length_map]
      omega
    · rw [normalizeSplitFractions_length hne, length_map, length_map]
    · intro child hchild
      obtain ⟨entry, hentry, rfl⟩ := mem_map.mp hchild
      exact (hflat entry hentry).2
    · intro child hchild
      obtain ⟨entry, hentry, rfl⟩ := mem_map.mp hchild
      exact (hflat entry hentry).1

theorem settle_leaves :
    ((settle id axis kept).toList.flatMap leaves) = kept.flatMap fun entry => entry.1.leaves := by
  rcases settle_cases id axis hkept with
    ⟨rfl, hnone⟩ | ⟨only, rfl, honly⟩ | ⟨htwo, hsplit⟩
  · rfl
  · rw [honly]
    simp
  · rw [hsplit, toList_some, flatMap_singleton, leaves_split, flatten_leaves _ hkept]

theorem settle_ids_sublist : ((settle id axis kept).toList.flatMap ids).Sublist
      (id :: kept.flatMap fun entry => entry.1.ids) := by
  rcases settle_cases id axis hkept with
    ⟨rfl, hnone⟩ | ⟨only, rfl, honly⟩ | ⟨htwo, hsplit⟩
  · rw [hnone]
    simp
  · rw [honly]
    simp
  · rw [hsplit, toList_some, flatMap_singleton, ids_split]
    exact (flatten_ids_sublist _ hkept).cons_cons id

end Settle

/-- The children that remain after simplification are settled. -/
theorem kept_settled {children : List DockTree} (fractions : List Scalar)
    (h : ∀ child ∈ children, ∀ tree, child.simplify = some tree → Settled tree) :
    ∀ entry ∈ keepShares (children.map simplify) fractions, Settled entry.1 := by
  intro entry hentry
  obtain ⟨child, hchild, htree⟩ := mem_map.mp (mem_of_mem_keepShares hentry)
  exact h child hchild entry.1 htree

theorem simplify_settled {tree simplified : DockTree} (h : tree.simplify = some simplified) :
    Settled simplified := by
  induction tree using induction generalizing simplified with
  | tabs id items selected =>
    rw [simplify] at h
    split at h
    · cases h
    · next hne =>
      cases h
      exact Settled.tabs (by simpa using hne)
  | floating id child ih =>
    rw [simplify, map_eq_some_iff] at h
    obtain ⟨below, hbelow, rfl⟩ := h
    exact Settled.floating (ih hbelow)
  | split id axis kids fractions ih =>
    rw [simplify] at h
    exact settle_settled (kept_settled _ fun kid hkid tree => ih kid hkid) h

theorem flatMap_keepShares {β : Type} (f : DockTree → List β) (children : List DockTree)
    (fractions : List Scalar) :
    ((keepShares (children.map simplify) fractions).flatMap fun entry => f entry.1) =
      children.flatMap fun child => child.simplify.toList.flatMap f := by
  induction children generalizing fractions with
  | nil => rfl
  | cons child rest ih =>
    rw [map_cons, flatMap_cons, ← ih fractions.tail]
    cases child.simplify with
    | none => rfl
    | some kept => simp [keepShares]

variable (tree : DockTree)

/-- Simplification keeps every stack that holds an item, in order. -/
theorem simplify_leaves :
    tree.simplify.toList.flatMap leaves = tree.leaves.filter fun entry => !entry.2.isEmpty := by
  induction tree using induction with
  | tabs id items selected =>
    rw [simplify]
    by_cases h : items.isEmpty <;> simp [h]
  | floating id child ih =>
    rw [simplify, leaves_floating, ← ih]
    cases child.simplify <;> simp
  | split id axis kids fractions ih =>
    rw [simplify, settle_leaves (kept_settled _ fun kid _ tree h => simplify_settled h),
      flatMap_keepShares, leaves_split, filter_flatMap]
    exact flatMap_congr ih

/-- Simplification only drops nodes. -/
theorem simplify_ids_sublist : (tree.simplify.toList.flatMap ids).Sublist tree.ids := by
  induction tree using induction with
  | tabs id items selected =>
    rw [simplify]
    by_cases h : items.isEmpty <;> simp [h]
  | floating id child ih =>
    rw [simplify]
    cases hchild : child.simplify with
    | none => simp
    | some below =>
      rw [hchild] at ih
      simpa using ih
  | split id axis kids fractions ih =>
    rw [simplify, ids_split]
    refine (settle_ids_sublist (kept_settled _ fun kid _ tree h => simplify_settled h)).trans ?_
    rw [flatMap_keepShares]
    apply List.Sublist.cons_cons
    induction kids with
    | nil => simp
    | cons kid rest ihrest =>
      exact (ih kid mem_cons_self).append
        (ihrest fun other hother => ih other (mem_cons_of_mem _ hother))

theorem simplify_items : tree.simplify.toList.flatMap items = tree.items := by
  have hassoc : tree.simplify.toList.flatMap items =
      (tree.simplify.toList.flatMap leaves).flatMap Prod.snd := by
    rw [flatMap_assoc]
    rfl
  rw [hassoc, simplify_leaves, items]
  induction tree.leaves with
  | nil => rfl
  | cons entry rest ih =>
    by_cases h : entry.2 = []
    · rw [filter_cons_of_neg (by simp [h]), ih, flatMap_cons, h, nil_append]
    · rw [filter_cons_of_pos (by simpa using h), flatMap_cons, flatMap_cons, ih]

end OpenGpui.Docking.DockTree
