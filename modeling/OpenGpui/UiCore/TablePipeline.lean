/-
The row pipeline as a whole: what every stage keeps of the stage before it, up to the
pages of the expanded rows.
-/
import OpenGpui.UiCore.TableConservation

namespace OpenGpui.UiCore

open Forest TablePagination List Nat SliceSort

section Pages

variable {α : Type} {pagination : TablePagination}

/-- No page starts beyond the largest number a list has rows for, so saturating the
start loses nothing. -/
theorem TablePagination.apply_eq (hmode : pagination.mode = .client)
    (hsize : 0 < pagination.pageSize) (hlimit : pagination.pageSize ≠ usizeMax)
    {rows : List α} (hrows : rows.length ≤ usizeMax) :
    pagination.apply rows =
      (rows.drop (pagination.pageIndex * pagination.pageSize)).take pagination.pageSize := by
  have hclient : ¬(pagination.mode = .manual ∨ pagination.pageSize = usizeMax) := by
    rw [hmode]
    simp [hlimit]
  rw [TablePagination.apply, if_neg hclient, if_neg (ne_of_gt hsize)]
  by_cases hstart : pagination.pageIndex * pagination.pageSize ≤ usizeMax
  · simp only [min_eq_left hstart]
  · have hle : usizeMax ≤ pagination.pageIndex * pagination.pageSize := by omega
    have hbeyond : rows.length ≤ pagination.pageIndex * pagination.pageSize := by omega
    simp only [min_eq_right hle, drop_eq_nil_of_le hrows, drop_eq_nil_of_le hbeyond]

theorem TablePagination.apply_of_off (hoff : pagination.pageSize = usizeMax)
    (rows : List α) : pagination.apply rows = rows := by
  rw [TablePagination.apply, if_pos (.inr hoff)]

theorem flatMap_pages (rows : List α) (pageSize count : Nat) :
    (List.range count).flatMap (fun index => (rows.drop (index * pageSize)).take pageSize) =
      rows.take (count * pageSize) := by
  induction count with
  | zero => simp
  | succ count ih =>
    have hlast : [count].flatMap (fun index => (rows.drop (index * pageSize)).take pageSize) =
        (rows.drop (count * pageSize)).take pageSize := flatMap_singleton _ _
    rw [range_succ, flatMap_append, ih, hlast, succ_mul, take_add]

end Pages

section Pipeline

variable {Number : Type} [TableScalars Number]

namespace TableState

/-- The table turned to another page. -/
def atPage (state : TableState Number) (pageIndex : Nat) : TableState Number :=
  { state with pagination := { state.pagination with pageIndex } }

/-- Pages from the first to the last that has rows make up all of the rows. -/
def PagesConcatenate (sort : SliceSort (TableResolvedRow Number × TableRowNodes Number))
    (state : TableState Number) : Prop :=
  ∃ count, (List.range count).flatMap (fun index =>
      ((state.atPage index).resolve sort).paginated) = (state.resolve sort).expanded ∧
    ∀ index, count ≤ index → ((state.atPage index).resolve sort).paginated = []

/-- Every row of the sorted model with its ancestors in the table, the nearest first. -/
def sortedRowsWithAncestors
    (sort : SliceSort (TableResolvedRow Number × TableRowNodes Number))
    (state : TableState Number) :
    List (TableResolvedRow Number × List (TableResolvedRow Number)) :=
  (state.sortedNodes sort).withAncestors []

structure ConservesRows (sort : SliceSort (TableResolvedRow Number × TableRowNodes Number))
    (state : TableState Number) : Prop where
  filtered : (state.resolve sort).filtered.Sublist (state.resolve sort).core
  filteredLeaves : ∀ row ∈ (state.resolve sort).filtered, row.isLeaf = true
  filteredOnce : ((state.resolve sort).filtered.map TableResolvedRow.sourceIndex).Nodup
  grouped : (sourceRows (state.resolve sort).grouped).Perm
    (sourceRows (state.resolve sort).filtered)
  sorted : (sourceRows (state.resolve sort).sorted).Perm (sourceRows (state.resolve sort).filtered)
  /-- A row's ancestors are those its parent identities lead to. -/
  ancestors : ∀ node ∈ state.sortedRowsWithAncestors sort,
    node.1.parentIdentity = node.2.head?.map TableResolvedRow.identity
  sortedRows : (state.sortedRowsWithAncestors sort).map Prod.fst = (state.resolve sort).sorted
  expanded : (state.resolve sort).expanded =
    ((state.sortedRowsWithAncestors sort).filter fun node =>
      node.2.all fun ancestor => state.expansion.isExpanded ancestor.identity).map Prod.fst
  pages : state.PagesConcatenate sort

variable (sort : SliceSort (TableResolvedRow Number × TableRowNodes Number))
variable (state : TableState Number)

theorem built_sourceNodes :
    BuiltNodes 0 none (buildSourceRowNodes state.sourceContext state.rows false 0 none 0) :=
  built_sourceRowNodes _ _ _ _ _ _ (.inr rfl)

/-- The filtered nodes are the source nodes pruned, in one or two passes or not at all. -/
theorem filteredNodes_cases (property : TableRowNodes Number → Prop)
    (hsource : property state.sourceNodes)
    (hprune : ∀ nodes keep, property nodes → property (nodes.prune keep)) :
    property state.filteredNodes := by
  have hfilters : property (filterSourceRowNodes state.sourceNodes state.filters) := by
    rw [filterSourceRowNodes]
    by_cases hnone : state.filters.isEmpty = true
    · rw [if_pos hnone]
      exact hsource
    · rw [if_neg hnone]
      exact hprune _ _ hsource
  rw [filteredNodes]
  by_cases hmanual : state.filteringMode = .manual
  · rw [if_pos hmanual]
    exact hsource
  · rw [if_neg hmanual, filterSourceRowNodesByGlobalQuery]
    by_cases hquery : state.globalFilter.all String.isEmpty = true
    · rw [if_pos hquery]
      exact hfilters
    · rw [if_neg hquery]
      exact hprune _ _ hfilters

theorem filtered_sublist : state.filteredNodes.flatten.Sublist state.sourceNodes.flatten :=
  state.filteredNodes_cases (fun nodes => nodes.flatten.Sublist state.sourceNodes.flatten)
    (List.Sublist.refl _)
    fun nodes keep h => (flatten_prune_sublist keep nodes).trans h

theorem parented_filteredNodes : Parented none state.filteredNodes :=
  state.filteredNodes_cases (Parented none) state.built_sourceNodes.parented
    fun _ keep h => h.prune keep

theorem isLeaf_of_mem_filtered {row : TableResolvedRow Number}
    (hrow : row ∈ state.filteredNodes.flatten) : row.isLeaf = true :=
  state.built_sourceNodes.leaves row (state.filtered_sublist.subset hrow)

theorem sourceRows_groupedNodes : (sourceRows state.groupedNodes.flatten).Perm
    (sourceRows state.filteredNodes.flatten) := by
  rw [groupedNodes]
  by_cases hgrouping : state.grouping.isEmpty = true
  · rw [if_pos hgrouping]
  · have hleaves : ∀ row ∈ state.filteredNodes.flatten, row.isLeaf = true :=
      fun _ hrow => state.isLeaf_of_mem_filtered hrow
    rw [if_neg hgrouping, sourceRows_of_leaves hleaves]
    exact sourceRows_buildGroupNodes _ hleaves _ _ _

theorem parented_groupedNodes : Parented none state.groupedNodes := by
  rw [groupedNodes]
  by_cases hgrouping : state.grouping.isEmpty = true
  · rw [if_pos hgrouping]
    exact state.parented_filteredNodes
  · rw [if_neg hgrouping]
    apply parented_buildGroupNodes
    left
    intro hnone
    exact hgrouping (isEmpty_iff.mpr hnone)

/-- The sort of a level keeps the rows of the level. -/
theorem levelSort_perm (nodes : List (TableResolvedRow Number × TableRowNodes Number)) :
    (if state.sorting.isEmpty then nodes
      else sort.sortBy (fun left right => compareRows state.sorting left.1 right.1)
        nodes).Perm nodes := by
  by_cases hsorting : state.sorting.isEmpty = true
  · rw [if_pos hsorting]
  · rw [if_neg hsorting]
    exact sort.perm _ _

theorem sorted_perm_grouped : (state.sortedNodes sort).flatten.Perm state.groupedNodes.flatten := by
  rw [sortedNodes]
  by_cases hmanual : state.sortingMode = .manual
  · rw [if_pos hmanual]
  · rw [if_neg hmanual]
    exact flatten_sortLevels_perm (state.levelSort_perm sort) _

theorem parented_sortedNodes : Parented none (state.sortedNodes sort) := by
  rw [sortedNodes]
  by_cases hmanual : state.sortingMode = .manual
  · rw [if_pos hmanual]
    exact state.parented_groupedNodes
  · rw [if_neg hmanual]
    exact state.parented_groupedNodes.sortLevels (state.levelSort_perm sort)

theorem expandNodes_eq (hmode : state.expansionMode = .client)
    (nodes : TableRowNodes Number) : state.expandNodes nodes =
      ((nodes.withAncestors []).filter fun node => node.2.all fun ancestor =>
        state.expansion.isExpanded ancestor.identity).map Prod.fst := by
  have hclient : (state.grouping.isEmpty && state.expansionMode == .manual) = false := by
    rw [hmode]
    simp
  rw [expandNodes, hclient]
  exact expand_eq _ nodes rfl

variable {sort state}

theorem paginated_atPage (hmode : state.pagination.mode = .client)
    (hsize : 0 < state.pagination.pageSize) (hlimit : state.pagination.pageSize ≠ usizeMax)
    (hrows : (state.resolve sort).expanded.length ≤ usizeMax) (index : Nat) :
    ((state.atPage index).resolve sort).paginated =
      ((state.resolve sort).expanded.drop (index * state.pagination.pageSize)).take
        state.pagination.pageSize :=
  @apply_eq _ (state.atPage index).pagination hmode hsize hlimit _ hrows

theorem paginated_atPage_of_off (hoff : state.pagination.pageSize = usizeMax) (index : Nat) :
    ((state.atPage index).resolve sort).paginated = (state.resolve sort).expanded :=
  @apply_of_off _ (state.atPage index).pagination hoff _

theorem pagesConcatenate (hmode : state.pagination.mode = .client)
    (hsize : 0 < state.pagination.pageSize) (hlimit : state.pagination.pageSize ≠ usizeMax)
    (hrows : (state.resolve sort).expanded.length ≤ usizeMax) :
    state.PagesConcatenate sort := by
  have hpage := paginated_atPage hmode hsize hlimit hrows
  have hcovers : ∀ count, (state.resolve sort).expanded.length ≤ count →
      (state.resolve sort).expanded.length ≤ count * state.pagination.pageSize := by
    intro count hcount
    exact hcount.trans (Nat.le_mul_of_pos_right count hsize)
  refine ⟨(state.resolve sort).expanded.length, ?_, ?_⟩
  · rw [flatMap_congr fun index _ => hpage index, flatMap_pages]
    exact take_of_length_le (hcovers _ (le_refl _))
  · intro index hindex
    rw [hpage, drop_eq_nil_of_le (hcovers index hindex), take_nil]

/-- For every state in client mode whose page size neither is zero nor turns pages off. -/
theorem conserves_rows (hexpansion : state.expansionMode = .client)
    (hmode : state.pagination.mode = .client) (hsize : 0 < state.pagination.pageSize)
    (hlimit : state.pagination.pageSize ≠ usizeMax)
    (hrows : (state.resolve sort).expanded.length ≤ usizeMax) :
    state.ConservesRows sort where
  filtered := state.filtered_sublist
  filteredLeaves _ hrow := state.isLeaf_of_mem_filtered hrow
  filteredOnce :=
    state.built_sourceNodes.indexed.nodup.sublist (state.filtered_sublist.map _)
  grouped := state.sourceRows_groupedNodes
  sorted := (sourceRows_perm (state.sorted_perm_grouped sort)).trans state.sourceRows_groupedNodes
  ancestors _ hnode := @Parented.withAncestors _ _ [] (state.parented_sortedNodes sort) _ hnode
  sortedRows := map_fst_withAncestors _ _
  expanded := state.expandNodes_eq hexpansion _
  pages := pagesConcatenate hmode hsize hlimit hrows

end TableState

end Pipeline

/-- Two rows, the first with a child, sorted by a column of numbers, two rows a page. -/
def sortedPairTable : TableState Int :=
  { TableState.new (.cons ((TableRow.new "beta").withCell "size" (.number 2))
      (.cons ((TableRow.new "gamma").withCell "size" (.number 3)) .nil .nil)
        (.cons ((TableRow.new "alpha").withCell "size" (.number 1)) .nil .nil)) 1 with
    sorting := [⟨"size", .ascending⟩]
    expansion := .all
    pagination := ⟨0, 2, .client⟩ }

theorem sortedPairTable_conserves_rows : sortedPairTable.ConservesRows (insertion _) := by
  have hlength : (sortedPairTable.resolve (insertion _)).expanded.length = 3 := by
    decide
  apply TableState.conserves_rows rfl rfl (by decide) (by decide)
  rw [hlength]
  decide

/-- One row, and the page size a table starts with. -/
def unpagedTable : TableState Int := .new (.cons (.new "alpha") .nil .nil) 1

theorem unpagedTable_repeats_rows : unpagedTable.expansionMode = .client ∧
    unpagedTable.pagination.mode = .client ∧ 0 < unpagedTable.pagination.pageSize ∧
      ¬unpagedTable.PagesConcatenate (insertion _) := by
  refine ⟨rfl, rfl, by decide, ?_⟩
  rintro ⟨count, _, hempty⟩
  -- every page shows the row, also those after the last
  have hpage : ((unpagedTable.atPage count).resolve (insertion _)).paginated =
      (unpagedTable.resolve (insertion _)).expanded :=
    TableState.paginated_atPage_of_off rfl count
  have hnone := hpage.symm.trans (hempty count (le_refl count))
  have hone : (unpagedTable.resolve (insertion _)).expanded.length = 1 := by
    decide
  rw [hnone] at hone
  cases hone

end OpenGpui.UiCore
