/-
No stage of the row pipeline loses a row or shows one twice: filtering takes rows
away, grouping and sorting move them, expansion hides what is below a closed row, and
the pages cut the expanded rows up.
-/
import OpenGpui.UiCore.TableRows

namespace OpenGpui.UiCore

open Forest List Nat TableResolvedRow

variable {Number : Type}

/-- The row without its place in the grouped table. -/
def TableResolvedRow.unplaced (row : TableResolvedRow Number) : TableResolvedRow Number :=
  { row with depth := 0, parentIdentity := none }

/-- The source rows among the rows of a model, wherever they stand. -/
def sourceRows (rows : List (TableResolvedRow Number)) : List (TableResolvedRow Number) :=
  (rows.filter isLeaf).map unplaced

variable {rows : List (TableResolvedRow Number)}

theorem sourceRows_of_leaves (hleaves : ∀ row ∈ rows, row.isLeaf = true) :
    sourceRows rows = rows.map unplaced := by
  rw [sourceRows, filter_eq_self.mpr hleaves]

theorem sourceRows_append (first second : List (TableResolvedRow Number)) :
    sourceRows (first ++ second) = sourceRows first ++ sourceRows second := by
  rw [sourceRows, filter_append, map_append]
  rfl

theorem sourceRows_flatMap {α : Type} (entries : List α)
    (rowsOf : α → List (TableResolvedRow Number)) :
    sourceRows (entries.flatMap rowsOf) = entries.flatMap fun entry =>
      sourceRows (rowsOf entry) := by
  induction entries with
  | nil => rfl
  | cons entry rest ih =>
    rw [flatMap_cons, sourceRows_append, ih, flatMap_cons]

theorem sourceRows_perm {first second : List (TableResolvedRow Number)}
    (h : first.Perm second) : (sourceRows first).Perm (sourceRows second) :=
  (h.filter _).map _

section Source

/-- The source indices of the rows rise from the first bound to the second. -/
def IndexedBetween (low high : Nat) (rows : List (TableResolvedRow Number)) : Prop :=
  ∃ indices : List Nat, rows.map sourceIndex = indices.map some ∧
    indices.Pairwise (· < ·) ∧ ∀ index ∈ indices, low ≤ index ∧ index < high

variable {low : Nat} {high : Nat}

theorem IndexedBetween.append {middle : Nat} {first second : List (TableResolvedRow Number)}
    (hfirst : IndexedBetween low middle first)
    (hsecond : IndexedBetween middle high second) (hlow : low ≤ middle)
    (hhigh : middle ≤ high) : IndexedBetween low high (first ++ second) := by
  obtain ⟨indices, hmap, hsorted, hbounds⟩ := hfirst
  obtain ⟨indices', hmap', hsorted', hbounds'⟩ := hsecond
  refine ⟨indices ++ indices', by simp [hmap, hmap'], ?_, ?_⟩
  · rw [pairwise_append]
    refine ⟨hsorted, hsorted', ?_⟩
    intro index hindex index' hindex'
    have hlt := (hbounds index hindex).2
    have hle := (hbounds' index' hindex').1
    omega
  · intro index hindex
    rcases mem_append.mp hindex with hmem | hmem
    · have hbound := hbounds index hmem
      omega
    · have hbound := hbounds' index hmem
      omega

theorem IndexedBetween.nodup {rows : List (TableResolvedRow Number)}
    (h : IndexedBetween low high rows) :
    (rows.map sourceIndex).Nodup := by
  obtain ⟨indices, hmap, hsorted, _⟩ := h
  rw [hmap]
  apply List.Nodup.map (Option.some_injective Nat)
  exact hsorted.imp ne_of_lt

/-- Every row of the forest stands below the row its parent identity names, and the
first level below the given one. -/
def Parented (parentIdentity : Option TableRowIdentity) : TableRowNodes Number → Prop
  | .nil => True
  | .cons row children rest =>
    (row.parentIdentity = parentIdentity ∧ Parented (some row.identity) children) ∧
      Parented parentIdentity rest

variable {parentIdentity : Option TableRowIdentity} {nodes : TableRowNodes Number}

theorem parented_iff : Parented parentIdentity nodes ↔ ∀ node ∈ nodes.trees,
      node.1.parentIdentity = parentIdentity ∧ Parented (some node.1.identity) node.2 := by
  induction nodes with
  | nil => simp [Parented, trees]
  | cons row children rest _ ih =>
    rw [Parented, trees, forall_mem_cons, ih]

theorem Parented.prune (h : Parented parentIdentity nodes)
    (keep : TableResolvedRow Number → Bool) : Parented parentIdentity (nodes.prune keep) := by
  induction nodes generalizing parentIdentity with
  | nil => trivial
  | cons row children rest ihChildren ihRest =>
    obtain ⟨⟨hrow, hchildren⟩, hrest⟩ := h
    rw [prune]
    by_cases hkeep : keep row = true
    · rw [if_pos hkeep]
      exact ⟨⟨hrow, ihChildren hchildren⟩, ihRest hrest⟩
    · rw [if_neg hkeep]
      exact ihRest hrest

variable {sort : List (TableResolvedRow Number × TableRowNodes Number) →
  List (TableResolvedRow Number × TableRowNodes Number)}

theorem parented_sortChildren
    (hperm : ∀ nodes, (sort nodes).Perm nodes) (h : Parented parentIdentity nodes) :
    ∀ node ∈ nodes.sortChildren sort, node.1.parentIdentity = parentIdentity ∧
      Parented (some node.1.identity) node.2 := by
  induction nodes generalizing parentIdentity with
  | nil => simp [sortChildren]
  | cons row children rest ihChildren ihRest =>
    obtain ⟨⟨hrow, hchildren⟩, hrest⟩ := h
    rw [sortChildren, forall_mem_cons]
    refine ⟨⟨hrow, ?_⟩, ihRest hrest⟩
    rw [parented_iff, Forest.trees_ofTrees]
    intro node hnode
    exact ihChildren hchildren node ((hperm _).subset hnode)

theorem Parented.sortLevels
    (hperm : ∀ nodes, (sort nodes).Perm nodes) (h : Parented parentIdentity nodes) :
    Parented parentIdentity (nodes.sortLevels sort) := by
  rw [Forest.sortLevels, parented_iff, Forest.trees_ofTrees]
  intro node hnode
  exact parented_sortChildren hperm h node ((hperm _).subset hnode)

/-- What the parent identities say about the ancestors of every row. -/
theorem Parented.withAncestors {ancestors : List (TableResolvedRow Number)}
    (h : Parented (ancestors.head?.map identity) nodes)
    {node : TableResolvedRow Number × List (TableResolvedRow Number)}
    (hnode : node ∈ nodes.withAncestors ancestors) :
    node.1.parentIdentity = node.2.head?.map identity := by
  induction nodes generalizing ancestors with
  | nil => cases hnode
  | cons row children rest ihChildren ihRest =>
    obtain ⟨⟨hrow, hchildren⟩, hrest⟩ := h
    rw [Forest.withAncestors, mem_cons, mem_append] at hnode
    rcases hnode with rfl | hbelow | hafter
    · exact hrow
    · exact @ihChildren (row :: ancestors) hchildren hbelow
    · exact ihRest hrest hafter

/-- Nodes built from source rows: source rows in preorder, each with its index, below
the row their parent identity names. -/
structure BuiltNodes (low : Nat) (parentIdentity : Option TableRowIdentity)
    (built : TableRowNodes Number × Nat) : Prop where
  le : low ≤ built.2
  indexed : IndexedBetween low built.2 built.1.flatten
  leaves : ∀ row ∈ built.1.flatten, row.isLeaf = true
  parented : Parented parentIdentity built.1

theorem BuiltNodes.none (hle : low ≤ high) (parentIdentity : Option TableRowIdentity) :
    BuiltNodes low parentIdentity ((.nil : TableRowNodes Number), high) where
  le := hle
  indexed := ⟨[], rfl, List.Pairwise.nil, by simp⟩
  leaves := by simp [Forest.flatten]
  parented := trivial

theorem BuiltNodes.cons {row : TableResolvedRow Number} {below after : TableRowNodes Number × Nat}
    (hindex : row.sourceIndex = some low) (hleaf : row.isLeaf = true)
    (hparent : row.parentIdentity = parentIdentity)
    (hbelow : BuiltNodes (low + 1) (some row.identity) below)
    (hafter : BuiltNodes below.2 parentIdentity after) :
    BuiltNodes low parentIdentity (.cons row below.1 after.1, after.2) where
  le := by
    have hle := hbelow.le
    have hle' := hafter.le
    show low ≤ after.2
    omega
  indexed := by
    have hself : IndexedBetween low (low + 1) [row] :=
      ⟨[low], by simp [hindex], pairwise_singleton _ _, by simp⟩
    have hrest := hbelow.indexed.append hafter.indexed hbelow.le hafter.le
    exact hself.append hrest (le_succ low) (hbelow.le.trans hafter.le)
  leaves := by
    intro other hother
    rw [Forest.flatten, mem_cons, mem_append] at hother
    rcases hother with rfl | hmem | hmem
    · exact hleaf
    · exact hbelow.leaves other hmem
    · exact hafter.leaves other hmem
  parented := ⟨⟨hparent, hbelow.parented⟩, hafter.parented⟩

theorem built_sourceRowNodes (context : SourceRowContext) (rows : Forest (TableRow Number))
    (ancestorSelected : Bool) (sourceIndex : Nat) (parentIdentity : Option TableRowIdentity)
    (depth : Nat) (hparent : context.includeChildren = true ∨ parentIdentity = none) :
    BuiltNodes sourceIndex parentIdentity (buildSourceRowNodes context rows ancestorSelected
      sourceIndex parentIdentity depth) := by
  induction rows generalizing ancestorSelected sourceIndex parentIdentity depth with
  | nil => exact .none (le_refl sourceIndex) parentIdentity
  | cons row children rest ihChildren ihRest =>
    apply BuiltNodes.cons
    · rfl
    · rfl
    · by_cases hinclude : context.includeChildren = true
      · cases parentIdentity with
        | none =>
          split <;> rfl
        | some parent => simp [fromRow, hinclude]
      · rcases hparent with hyes | hnone
        · exact absurd hyes hinclude
        · subst hnone
          simp [fromRow, hinclude]
    · by_cases hinclude : context.includeChildren = true
      · rw [if_pos hinclude]
        exact ihChildren _ _ _ _ (.inl hinclude)
      · rw [if_neg hinclude]
        exact .none (le_add_right _ _) _
    · exact ihRest _ _ _ _ hparent

end Source

variable [TableScalars Number]
variable {aggregateCells : List (TableResolvedRow Number) →
  KeyMap TableColumnId (TableCellValue Number)}

variable (grouping : List TableColumnId)

/-- Grouping puts every row below one group of its value, and adds groups only. -/
theorem sourceRows_buildGroupNodes (hleaves : ∀ row ∈ rows, row.isLeaf = true)
    (depth : Nat) (parentGroupIdentity : TableGroupRowIdentity)
    (inheritedParentIdentity : Option TableRowIdentity) :
    (sourceRows (buildGroupNodes aggregateCells grouping rows depth parentGroupIdentity
      inheritedParentIdentity).flatten).Perm (rows.map unplaced) := by
  induction grouping generalizing rows depth parentGroupIdentity inheritedParentIdentity with
  | nil =>
    rw [buildGroupNodes, flatten_ofTrees, flatMap_map, sourceRows_flatMap]
    have hrow : ∀ row ∈ rows, sourceRows ((match inheritedParentIdentity with
        | some parentIdentity => row.withParent parentIdentity depth
        | none => row) :: Forest.nil.flatten) = [row.unplaced] := by
      intro row hmem
      rw [sourceRows_of_leaves]
      · cases inheritedParentIdentity <;> rfl
      · intro other hother
        rw [Forest.flatten, mem_singleton] at hother
        subst hother
        cases inheritedParentIdentity <;> exact hleaves row hmem
    have hrows := flatMap_congr hrow
    rw [← map_eq_flatMap] at hrows
    rw [← hrows]
    cases inheritedParentIdentity <;> exact List.Perm.refl _
  | cons column grouping ih =>
    have hbuckets : ((groupBuckets column rows).flatMap Prod.snd).Perm rows :=
      Buckets.entries_collect_perm _ rows
    rw [buildGroupNodes, flatten_ofTrees, flatMap_map, sourceRows_flatMap]
    have hbucket : ∀ bucket ∈ groupBuckets column rows, ∀ row ∈ bucket.2, row.isLeaf = true := by
      intro bucket hbucket row hrow
      apply hleaves
      apply hbuckets.subset
      exact mem_flatMap.mpr ⟨bucket, hbucket, hrow⟩
    have hbelow : ((groupBuckets column rows).flatMap fun bucket =>
        bucket.2.map unplaced).Perm (rows.map unplaced) := by
      rw [← map_flatMap]
      exact hbuckets.map _
    apply List.Perm.trans _ hbelow
    apply List.Perm.flatMap_left
    intro bucket hmem
    -- the group itself is no source row
    exact ih (hbucket bucket hmem) _ _ _

/-- Every row of a grouping stands below the group its parent identity names. -/
theorem parented_buildGroupNodes (rows : List (TableResolvedRow Number)) (depth : Nat)
    (parentGroupIdentity : TableGroupRowIdentity)
    {inheritedParentIdentity : Option TableRowIdentity}
    (hinherited : grouping ≠ [] ∨ inheritedParentIdentity.isSome = true) :
    Parented inheritedParentIdentity (buildGroupNodes aggregateCells grouping rows depth
      parentGroupIdentity inheritedParentIdentity) := by
  induction grouping generalizing rows depth parentGroupIdentity inheritedParentIdentity with
  | nil =>
    rw [buildGroupNodes, parented_iff, Forest.trees_ofTrees]
    intro node hnode
    obtain ⟨row, _, rfl⟩ := mem_map.mp hnode
    cases inheritedParentIdentity with
    | none => simp at hinherited
    | some parentIdentity => exact ⟨rfl, trivial⟩
  | cons column grouping ih =>
    rw [buildGroupNodes, parented_iff, Forest.trees_ofTrees]
    intro node hnode
    obtain ⟨bucket, _, rfl⟩ := mem_map.mp hnode
    exact ⟨rfl, ih _ _ _ (.inr rfl)⟩

end OpenGpui.UiCore
