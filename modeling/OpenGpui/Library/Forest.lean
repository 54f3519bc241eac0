/-
Ordered forests, a node standing before its children and they before its later
siblings: flattening, pruning, rearranging the levels, and folding up the nodes
that are not open.
-/
import Mathlib.Data.List.Perm.Basic

namespace OpenGpui

open List

universe u v

inductive Forest (α : Type u) where
  | nil
  | cons (value : α) (children rest : Forest α)

namespace Forest

variable {α : Type u} {β : Type v}

def flatten : Forest α → List α
  | nil => []
  | cons value children rest => value :: (children.flatten ++ rest.flatten)

/-- The nodes of the first level with what is below them. -/
def trees : Forest α → List (α × Forest α)
  | nil => []
  | cons value children rest => (value, children) :: rest.trees

def ofTrees : List (α × Forest α) → Forest α
  | [] => nil
  | (value, children) :: rest => cons value children (ofTrees rest)

variable (nodes : List (α × Forest α))

@[simp] theorem trees_ofTrees : (ofTrees nodes).trees = nodes := by
  induction nodes with
  | nil => rfl
  | cons node rest ih => rw [ofTrees, trees, ih]

@[simp] theorem ofTrees_trees (forest : Forest α) : ofTrees forest.trees = forest := by
  induction forest with
  | nil => rfl
  | cons value children rest _ ih => rw [trees, ofTrees, ih]

theorem flatten_eq_flatMap (forest : Forest α) :
    forest.flatten = forest.trees.flatMap fun node => node.1 :: node.2.flatten := by
  induction forest with
  | nil => rfl
  | cons value children rest _ ih => rw [flatten, ih]; rfl

theorem flatten_ofTrees :
    (ofTrees nodes).flatten = nodes.flatMap fun node => node.1 :: node.2.flatten := by
  rw [flatten_eq_flatMap, trees_ofTrees]

/-- The forest without the nodes that are not kept and all that is below these. -/
def prune (keep : α → Bool) : Forest α → Forest α
  | nil => nil
  | cons value children rest =>
    if keep value then cons value (children.prune keep) (rest.prune keep)
    else rest.prune keep

theorem flatten_prune_sublist (keep : α → Bool) (forest : Forest α) :
    (forest.prune keep).flatten.Sublist forest.flatten := by
  induction forest with
  | nil => exact List.Sublist.refl _
  | cons value children rest ihChildren ihRest =>
    rw [prune]
    by_cases hkeep : keep value = true
    · rw [if_pos hkeep]
      exact (ihChildren.append ihRest).cons_cons value
    · rw [if_neg hkeep]
      exact (ihRest.trans (sublist_append_right _ _)).cons value

/-- The rows of a forest when only the children of open nodes are shown. -/
def expand (isOpen : α → Bool) : Forest α → List α
  | nil => []
  | cons value children rest =>
    value :: ((if isOpen value then children.expand isOpen else []) ++ rest.expand isOpen)

/-- Every node in order, with the nodes above it, the nearest first. -/
def withAncestors (ancestors : List α) : Forest α → List (α × List α)
  | nil => []
  | cons value children rest =>
    (value, ancestors) ::
      (children.withAncestors (value :: ancestors) ++ rest.withAncestors ancestors)

theorem map_fst_withAncestors (ancestors : List α) (forest : Forest α) :
    (forest.withAncestors ancestors).map Prod.fst = forest.flatten := by
  induction forest generalizing ancestors with
  | nil => rfl
  | cons value children rest ihChildren ihRest =>
    rw [withAncestors, map_cons, map_append, ihChildren, ihRest, flatten]

theorem isSuffix_of_mem_withAncestors {ancestors : List α} {forest : Forest α}
    {node : α × List α} (h : node ∈ forest.withAncestors ancestors) :
    ancestors <:+ node.2 := by
  induction forest generalizing ancestors with
  | nil => cases h
  | cons value children rest ihChildren ihRest =>
    rw [withAncestors, mem_cons, mem_append] at h
    rcases h with rfl | hchildren | hrest
    · exact suffix_refl _
    · exact (suffix_cons value ancestors).trans (ihChildren hchildren)
    · exact ihRest hrest

variable (isOpen : α → Bool)

/-- Exactly the nodes all of whose ancestors are open are shown, in the order of the
forest. -/
theorem expand_eq (forest : Forest α) {ancestors : List α} (hopen : ancestors.all isOpen = true) :
    forest.expand isOpen =
      ((forest.withAncestors ancestors).filter fun node => node.2.all isOpen).map Prod.fst := by
  induction forest generalizing ancestors with
  | nil => rfl
  | cons value children rest ihChildren ihRest =>
    rw [expand, withAncestors, filter_cons, if_pos hopen, filter_append,
      map_cons, map_append, ← ihRest hopen]
    by_cases hvalue : isOpen value = true
    · have habove : (value :: ancestors).all isOpen = true := by
        rw [all_cons, hvalue, hopen]
        rfl
      rw [if_pos hvalue, ihChildren habove]
    · have hnone : (children.withAncestors (value :: ancestors)).filter
          (fun node => node.2.all isOpen) = [] := by
        rw [filter_eq_nil_iff]
        intro node hnode hall
        have hmem : value ∈ node.2 := (isSuffix_of_mem_withAncestors hnode).subset mem_cons_self
        exact hvalue (all_eq_true.mp hall value hmem)
      rw [if_neg hvalue, hnone]
      rfl

theorem expand_sublist (forest : Forest α) : (forest.expand isOpen).Sublist forest.flatten := by
  rw [@expand_eq _ isOpen forest [] rfl, ← map_fst_withAncestors [] forest]
  exact filter_sublist.map Prod.fst

/-- Two lists of nodes that are the same up to the order within every level. -/
inductive Rearranged : List (α × Forest α) → List (α × Forest α) → Prop where
  | nil : Rearranged [] []
  | cons {value : α} {children children' : Forest α} {rest rest' : List (α × Forest α)} :
      Rearranged children.trees children'.trees → Rearranged rest rest' →
        Rearranged ((value, children) :: rest) ((value, children') :: rest')
  | perm {nodes middle nodes' : List (α × Forest α)} :
      Rearranged nodes middle → middle.Perm nodes' → Rearranged nodes nodes'

theorem Rearranged.flatten_perm {nodes nodes' : List (α × Forest α)} (h : Rearranged nodes nodes') :
    (ofTrees nodes).flatten.Perm (ofTrees nodes').flatten := by
  induction h with
  | nil => exact List.Perm.refl _
  | cons _ _ ihChildren ihRest =>
    rw [ofTrees_trees, ofTrees_trees] at ihChildren
    exact (ihChildren.append ihRest).cons _
  | perm _ hperm ih =>
    rw [flatten_ofTrees, flatten_ofTrees] at ih ⊢
    exact ih.trans (hperm.flatMap_right _)

/-- The nodes with every level below them sorted. -/
def sortChildren (sort : List (α × Forest α) → List (α × Forest α)) :
    Forest α → List (α × Forest α)
  | nil => []
  | cons value children rest =>
    (value, ofTrees (sort (children.sortChildren sort))) :: rest.sortChildren sort

def sortLevels (sort : List (α × Forest α) → List (α × Forest α)) (forest : Forest α) : Forest α :=
  ofTrees (sort (forest.sortChildren sort))

section Sorting

variable {sort : List (α × Forest α) → List (α × Forest α)}

variable (hperm : ∀ nodes, (sort nodes).Perm nodes)

include hperm

theorem rearranged_sortChildren
    (forest : Forest α) : Rearranged forest.trees (forest.sortChildren sort) := by
  induction forest with
  | nil => exact .nil
  | cons value children rest ihChildren ihRest =>
    apply Rearranged.cons _ ihRest
    rw [trees_ofTrees]
    exact ihChildren.perm (hperm _).symm

theorem rearranged_sortLevels
    (forest : Forest α) : Rearranged forest.trees (forest.sortLevels sort).trees := by
  rw [sortLevels, trees_ofTrees]
  exact (rearranged_sortChildren hperm forest).perm (hperm _).symm

theorem flatten_sortLevels_perm
    (forest : Forest α) : (forest.sortLevels sort).flatten.Perm forest.flatten := by
  have h := (rearranged_sortLevels hperm forest).flatten_perm
  rw [ofTrees_trees, ofTrees_trees] at h
  exact h.symm

end Sorting

/-- The values of the first level. -/
def level (forest : Forest α) : List α := forest.trees.map Prod.fst

theorem map_fst_sortChildren (sort : List (α × Forest α) → List (α × Forest α))
    (forest : Forest α) : (forest.sortChildren sort).map Prod.fst = forest.level := by
  induction forest with
  | nil => rfl
  | cons value children rest _ ih => rw [sortChildren, map_cons, ih]; rfl

theorem level_sortLevels_perm {sort : List (α × Forest α) → List (α × Forest α)}
    (hperm : ∀ nodes, (sort nodes).Perm nodes) (forest : Forest α) :
    (forest.sortLevels sort).level.Perm forest.level := by
  have hlevel := (hperm (forest.sortChildren sort)).map Prod.fst
  rw [map_fst_sortChildren] at hlevel
  rw [sortLevels, level, trees_ofTrees]
  exact hlevel

/-- The property holds of every level below the first. -/
def LevelsBelow (property : List α → Prop) : Forest α → Prop
  | nil => True
  | cons _ children rest =>
    (property children.level ∧ children.LevelsBelow property) ∧ rest.LevelsBelow property

def EveryLevel (property : List α → Prop) (forest : Forest α) : Prop :=
  property forest.level ∧ forest.LevelsBelow property

instance decidableLevelsBelow (property : List α → Prop) [DecidablePred property] :
    ∀ forest : Forest α, Decidable (forest.LevelsBelow property)
  | nil => .isTrue trivial
  | cons _ children rest =>
    have := decidableLevelsBelow property children
    have := decidableLevelsBelow property rest
    inferInstanceAs (Decidable ((_ ∧ _) ∧ _))

instance (property : List α → Prop) [DecidablePred property] (forest : Forest α) :
    Decidable (forest.EveryLevel property) :=
  inferInstanceAs (Decidable (_ ∧ _))

variable {forest : Forest α} {property : List α → Prop}

theorem levelsBelow_iff :
    forest.LevelsBelow property ↔ ∀ node ∈ forest.trees, node.2.EveryLevel property := by
  induction forest with
  | nil => simp [LevelsBelow, trees]
  | cons value children rest _ ih =>
    rw [LevelsBelow, trees, forall_mem_cons, ih]
    rfl

/-- Sorting every level gives the levels what sorting gives one of them. -/
theorem everyLevel_sortLevels {sort : List (α × Forest α) → List (α × Forest α)}
    {property' : List α → Prop} (hperm : ∀ nodes, (sort nodes).Perm nodes)
    (hsort : ∀ nodes : List (α × Forest α), property (nodes.map Prod.fst) →
      property' ((sort nodes).map Prod.fst))
    (h : forest.EveryLevel property) : (forest.sortLevels sort).EveryLevel property' := by
  have hlevels : ∀ part : Forest α, property part.level →
      (∀ node ∈ part.sortChildren sort, node.2.EveryLevel property') →
        (part.sortLevels sort).EveryLevel property' := by
    intro part hlevel hbelow
    rw [← map_fst_sortChildren sort] at hlevel
    rw [EveryLevel, levelsBelow_iff, level, sortLevels, trees_ofTrees]
    exact ⟨hsort _ hlevel, fun node hnode => hbelow node ((hperm _).subset hnode)⟩
  have hbelow : ∀ part : Forest α, part.LevelsBelow property →
      ∀ node ∈ part.sortChildren sort, node.2.EveryLevel property' := by
    intro part
    induction part with
    | nil => simp [sortChildren]
    | cons value children rest ihChildren ihRest =>
      rintro ⟨⟨hlevel, hchildren⟩, hrest⟩
      rw [sortChildren, forall_mem_cons]
      exact ⟨hlevels children hlevel (ihChildren hchildren), ihRest hrest⟩
  exact hlevels forest h.1 (hbelow forest h.2)

/-- No node has children. -/
def IsFlat : Forest α → Prop
  | nil => True
  | cons _ children rest => children = nil ∧ rest.IsFlat

theorem IsFlat.prune (hflat : forest.IsFlat) (keep : α → Bool) : (forest.prune keep).IsFlat := by
  induction forest with
  | nil => trivial
  | cons value children rest _ ih =>
    obtain ⟨rfl, hrest⟩ := hflat
    rw [Forest.prune]
    by_cases hkeep : keep value = true
    · rw [if_pos hkeep]
      exact ⟨rfl, ih hrest⟩
    · rw [if_neg hkeep]
      exact ih hrest

theorem IsFlat.flatten_prune (hflat : forest.IsFlat)
    (keep : α → Bool) : (forest.prune keep).flatten = forest.flatten.filter keep := by
  induction forest with
  | nil => rfl
  | cons value children rest _ ih =>
    obtain ⟨rfl, hrest⟩ := hflat
    have hsame : (cons value nil rest).flatten = value :: rest.flatten := rfl
    rw [Forest.prune, hsame]
    by_cases hkeep : keep value = true
    · have hkept : (cons value (Forest.prune keep nil) (rest.prune keep)).flatten =
          value :: (rest.prune keep).flatten := rfl
      rw [if_pos hkeep, hkept, ih hrest, filter_cons_of_pos hkeep]
    · rw [if_neg hkeep, ih hrest, filter_cons_of_neg hkeep]

end Forest

end OpenGpui
