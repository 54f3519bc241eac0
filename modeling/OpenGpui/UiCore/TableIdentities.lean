/-
Identities of rows in a resolved table: source rows have the identity of their place
in the preorder, groups that of their path of group values, and no model shows an
identity twice.
-/
import OpenGpui.UiCore.TableIdentityIndex
import OpenGpui.UiCore.TablePipeline

namespace OpenGpui.UiCore

open List Forest TableGroupValueIdentity TableSourceIdentityIndex TableRowIdentity

variable {Number : Type}

section Kinds

def TableRowIdentity.source? : TableRowIdentity → Option TableSourceRowIdentity
  | .source identity => some identity
  | .group _ => none

def TableRowIdentity.group? : TableRowIdentity → Option TableGroupRowIdentity
  | .source _ => none
  | .group identity => some identity

variable (rows : List (TableResolvedRow Number))

def identitiesOf : List TableRowIdentity := rows.map TableResolvedRow.identity

def sourceIdentitiesOf : List TableSourceRowIdentity := (identitiesOf rows).filterMap source?

def groupIdentitiesOf : List TableGroupRowIdentity := (identitiesOf rows).filterMap group?

theorem nodup_of_kinds {identities : List TableRowIdentity}
    (hsource : (identities.filterMap source?).Nodup)
    (hgroup : (identities.filterMap group?).Nodup) : identities.Nodup := by
  induction identities with
  | nil => exact nodup_nil
  | cons identity rest ih =>
    rw [nodup_cons]
    cases identity with
    | source identity =>
      have hcons : (identity :: rest.filterMap source?).Nodup := hsource
      rw [nodup_cons] at hcons
      refine ⟨?_, ih hcons.2 hgroup⟩
      intro hmem
      exact hcons.1 (mem_filterMap.mpr ⟨_, hmem, rfl⟩)
    | group identity =>
      have hcons : (identity :: rest.filterMap group?).Nodup := hgroup
      rw [nodup_cons] at hcons
      refine ⟨?_, ih hsource hcons.2⟩
      intro hmem
      exact hcons.1 (mem_filterMap.mpr ⟨_, hmem, rfl⟩)

theorem groupIdentitiesOf_eq_nil_iff {rows : List (TableResolvedRow Number)} :
    groupIdentitiesOf rows = [] ↔ ∀ row ∈ rows, row.identity.group? = none := by
  rw [groupIdentitiesOf, identitiesOf, filterMap_map, filterMap_eq_nil_iff]
  rfl

theorem sourceIdentitiesOf_flatMap {α : Type} (entries : List α)
    (rowsOf : α → List (TableResolvedRow Number)) :
    sourceIdentitiesOf (entries.flatMap rowsOf) =
      entries.flatMap fun entry => sourceIdentitiesOf (rowsOf entry) := by
  rw [sourceIdentitiesOf, identitiesOf, map_flatMap, filterMap_flatMap]
  rfl

end Kinds

section Places

/-- Each row resolves a source row at a place from `low` on, and has the place's
identity. -/
def PlacedFrom (context : SourceRowContext) (low : Nat) (sources : List (TableRow Number))
    (rows : List (TableResolvedRow Number)) : Prop :=
  ∀ row ∈ rows, ∃ offset source, sources[offset]? = some source ∧
    row.source = some source ∧ row.sourceIndex = some (low + offset) ∧
      row.identity = .source (context.identityAt (low + offset))

variable {context : SourceRowContext} {low : Nat}

/-- Rows placed among some of the source rows are placed among all of them. -/
theorem PlacedFrom.within {sources : List (TableRow Number)}
    {rows : List (TableResolvedRow Number)} (before after : List (TableRow Number))
    (h : PlacedFrom context (low + before.length) sources rows) :
    PlacedFrom context low (before ++ (sources ++ after)) rows := by
  intro row hrow
  obtain ⟨offset, source, hoffset, hsource, hindex, hidentity⟩ := h row hrow
  refine ⟨before.length + offset, source, ?_, hsource, ?_, ?_⟩
  · have hlt : offset < sources.length := (List.getElem?_eq_some_iff.mp hoffset).1
    rw [List.getElem?_append_right (Nat.le_add_right _ _), Nat.add_sub_cancel_left,
      getElem?_append_left hlt, hoffset]
  · rw [hindex, Nat.add_assoc]
  · rw [hidentity, Nat.add_assoc]

/-- The cursor stays with the preorder, also where it passes over children. -/
theorem placedFrom_buildSourceRowNodes (context : SourceRowContext)
    (rows : Forest (TableRow Number)) (ancestorSelected : Bool) (sourceIndex : Nat)
    (parentIdentity : Option TableRowIdentity) (depth : Nat) :
    (buildSourceRowNodes context rows ancestorSelected sourceIndex parentIdentity depth).2 =
        sourceIndex + rows.flatten.length ∧
      PlacedFrom context sourceIndex rows.flatten (buildSourceRowNodes context rows
        ancestorSelected sourceIndex parentIdentity depth).1.flatten := by
  induction rows generalizing ancestorSelected sourceIndex parentIdentity depth with
  | nil =>
    refine ⟨rfl, ?_⟩
    intro row hrow
    cases hrow
  | cons row children rest ihChildren ihRest =>
    rw [buildSourceRowNodes]
    -- the children are either built or passed over
    have hbelow : ∀ selected identity below, below = (if context.includeChildren then
          buildSourceRowNodes context children selected (sourceIndex + 1) (some identity)
            (depth + 1)
        else (.nil, sourceIndex + 1 + countTableRows children)) →
        below.2 = sourceIndex + 1 + children.flatten.length ∧
          PlacedFrom context (sourceIndex + 1) children.flatten below.1.flatten := by
      rintro selected identity below rfl
      by_cases hinclude : context.includeChildren = true
      · rw [if_pos hinclude]
        exact ihChildren _ _ _ _
      · rw [if_neg hinclude]
        refine ⟨rfl, ?_⟩
        intro row hrow
        cases hrow
    simp only [Forest.flatten]
    generalize hchosen : ite (context.includeChildren = true) _ _ = below
    obtain ⟨hend, hplaced⟩ := hbelow _ _ _ hchosen.symm
    rw [hend]
    obtain ⟨hrestEnd, hrestPlaced⟩ := ihRest ancestorSelected
      (sourceIndex + 1 + children.flatten.length) parentIdentity depth
    constructor
    · rw [length_cons, length_append]
      omega
    · intro resolved hresolved
      rw [mem_cons, mem_append] at hresolved
      rcases hresolved with rfl | hchild | hafter
      · exact ⟨0, row, rfl, rfl, rfl, rfl⟩
      · exact PlacedFrom.within [row] rest.flatten hplaced resolved hchild
      · have hlow : sourceIndex + 1 + children.flatten.length =
            sourceIndex + (row :: children.flatten).length := by
          rw [length_cons]
          omega
        rw [hlow] at hrestPlaced hafter
        have hwithin := PlacedFrom.within (row :: children.flatten) [] hrestPlaced
        rw [append_nil] at hwithin
        exact hwithin resolved hafter

end Places

section Groups

variable [TableScalars Number]
variable {aggregateCells : List (TableResolvedRow Number) →
  KeyMap TableColumnId (TableCellValue Number)}

theorem identitiesOf_buildGroupNodes_nil (rows : List (TableResolvedRow Number))
    (depth : Nat) (path : TableGroupRowIdentity)
    (inheritedParentIdentity : Option TableRowIdentity) :
    identitiesOf (buildGroupNodes aggregateCells [] rows depth path
      inheritedParentIdentity).flatten = identitiesOf rows := by
  rw [buildGroupNodes, flatten_ofTrees, flatMap_map]
  cases inheritedParentIdentity with
  | none => simp [identitiesOf, Forest.flatten]
  | some parentIdentity =>
    simp only [identitiesOf, Forest.flatten, ← map_eq_flatMap, map_map]
    rfl

theorem identitiesOf_buildGroupNodes_cons (column : TableColumnId)
    (grouping : List TableColumnId) (rows : List (TableResolvedRow Number))
    (depth : Nat) (path : TableGroupRowIdentity)
    (inheritedParentIdentity : Option TableRowIdentity) :
    identitiesOf (buildGroupNodes aggregateCells (column :: grouping) rows depth path
        inheritedParentIdentity).flatten =
      (groupBuckets column rows).flatMap fun bucket =>
        let groupPath := path ++ [⟨column, fromCellValue bucket.1⟩]
        .group groupPath :: identitiesOf (buildGroupNodes aggregateCells grouping bucket.2
          (depth + 1) groupPath (some (.group groupPath))).flatten := by
  rw [buildGroupNodes, flatten_ofTrees, flatMap_map, identitiesOf, map_flatMap]
  rfl

/-- Grouping source rows keeps their identities, and gives every group the path of
its values below the path it started from. -/
theorem identities_buildGroupNodes (grouping : List TableColumnId)
    {rows : List (TableResolvedRow Number)} (hrows : groupIdentitiesOf rows = [])
    (depth : Nat) (path : TableGroupRowIdentity)
    (inheritedParentIdentity : Option TableRowIdentity) :
    (sourceIdentitiesOf (buildGroupNodes aggregateCells grouping rows depth path
        inheritedParentIdentity).flatten).Perm (sourceIdentitiesOf rows) ∧
      (groupIdentitiesOf (buildGroupNodes aggregateCells grouping rows depth path
        inheritedParentIdentity).flatten).Nodup ∧
      ∀ identity ∈ groupIdentitiesOf (buildGroupNodes aggregateCells grouping rows depth
        path inheritedParentIdentity).flatten, ∃ segment segments,
          identity = path ++ segment :: segments := by
  induction grouping generalizing rows depth path inheritedParentIdentity with
  | nil =>
    have hsame := @identitiesOf_buildGroupNodes_nil Number _ aggregateCells rows depth path
      inheritedParentIdentity
    rw [groupIdentitiesOf] at hrows
    rw [sourceIdentitiesOf, groupIdentitiesOf, hsame, hrows]
    exact ⟨List.Perm.refl _, nodup_nil, fun _ hmem => absurd hmem not_mem_nil⟩
  | cons column grouping ih =>
    have hbuckets : ((groupBuckets column rows).flatMap Prod.snd).Perm rows :=
      Buckets.entries_collect_perm _ rows
    have hkeys : ((groupBuckets column rows).map fun bucket =>
        fromCellValue bucket.1).Nodup := Buckets.keys_collect _ rows
    have hbucket : ∀ bucket ∈ groupBuckets column rows, groupIdentitiesOf bucket.2 = [] := by
      intro bucket hbucket
      rw [groupIdentitiesOf_eq_nil_iff] at hrows ⊢
      intro row hrow
      apply hrows
      exact hbuckets.subset (mem_flatMap.mpr ⟨bucket, hbucket, hrow⟩)
    -- the groups of a bucket: its own, and those below it
    let groupPath := fun bucket : TableCellValue Number × List (TableResolvedRow Number) =>
      path ++ [⟨column, fromCellValue bucket.1⟩]
    let below := fun bucket : TableCellValue Number × List (TableResolvedRow Number) =>
      (buildGroupNodes aggregateCells grouping bucket.2 (depth + 1) (groupPath bucket)
        (some (.group (groupPath bucket)))).flatten
    have hsources : sourceIdentitiesOf (buildGroupNodes aggregateCells (column :: grouping)
        rows depth path inheritedParentIdentity).flatten =
          (groupBuckets column rows).flatMap fun bucket =>
            sourceIdentitiesOf (below bucket) := by
      rw [sourceIdentitiesOf, identitiesOf_buildGroupNodes_cons, filterMap_flatMap]
      rfl
    have hgroups : groupIdentitiesOf (buildGroupNodes aggregateCells (column :: grouping) rows depth
        path inheritedParentIdentity).flatten = (groupBuckets column rows).flatMap fun bucket =>
            groupPath bucket :: groupIdentitiesOf (below bucket) := by
      rw [groupIdentitiesOf, identitiesOf_buildGroupNodes_cons, filterMap_flatMap]
      rfl
    have hpaths : ∀ bucket ∈ groupBuckets column rows, ∀ identity,
        identity ∈ groupPath bucket :: groupIdentitiesOf (below bucket) → ∃ segments, identity =
            path ++ ⟨column, fromCellValue bucket.1⟩ :: segments := by
      intro bucket hmem identity hidentity
      rcases mem_cons.mp hidentity with rfl | hlower
      · exact ⟨[], rfl⟩
      · obtain ⟨segment, segments, rfl⟩ := (ih (hbucket bucket hmem) _ _ _).2.2 _ hlower
        exact ⟨segment :: segments, append_assoc _ _ _⟩
    refine ⟨?_, ?_, ?_⟩
    · have hbelow : ((groupBuckets column rows).flatMap fun bucket =>
          sourceIdentitiesOf bucket.2).Perm (sourceIdentitiesOf rows) := by
        rw [← sourceIdentitiesOf_flatMap]
        exact (hbuckets.map _).filterMap _
      rw [hsources]
      apply List.Perm.trans _ hbelow
      apply List.Perm.flatMap_left
      intro bucket hmem
      exact (ih (hbucket bucket hmem) _ _ _).1
    · rw [hgroups]
      apply nodup_flatMap_of_keys hkeys
      · intro bucket hmem
        obtain ⟨-, hnodup, hlonger⟩ := ih (hbucket bucket hmem) (depth + 1)
          (groupPath bucket) (some (.group (groupPath bucket)))
        rw [nodup_cons]
        refine ⟨?_, hnodup⟩
        intro hself
        obtain ⟨segment, segments, hsame⟩ := hlonger _ hself
        have hlength := congrArg length hsame
        simp at hlength
      · intro first hfirst second hsecond identity hinFirst hinSecond
        obtain ⟨segments, rfl⟩ := hpaths first hfirst identity hinFirst
        obtain ⟨segments', hsame⟩ := hpaths second hsecond _ hinSecond
        rw [append_cancel_left_eq, List.cons.injEq, TableGroupRowSegment.mk.injEq] at hsame
        exact hsame.1.2
    · intro identity hidentity
      rw [hgroups] at hidentity
      obtain ⟨bucket, hmem, hpart⟩ := mem_flatMap.mp hidentity
      obtain ⟨segments, hsame⟩ := hpaths bucket hmem identity hpart
      exact ⟨_, segments, hsame⟩

end Groups

variable [TableScalars Number]

theorem TablePagination.apply_sublist {α : Type} (pagination : TablePagination)
    (rows : List α) : (pagination.apply rows).Sublist rows := by
  rw [TablePagination.apply]
  by_cases hoff : pagination.mode = .manual ∨ pagination.pageSize = usizeMax
  · rw [if_pos hoff]
  · rw [if_neg hoff]
    by_cases hsize : pagination.pageSize = 0
    · rw [if_pos hsize]
      exact nil_sublist _
    · rw [if_neg hsize]
      exact (take_sublist _ _).trans (drop_sublist _ _)

def TableRowModels.all (models : TableRowModels Number) : List (List (TableResolvedRow Number)) :=
  [models.core, models.filtered, models.grouped, models.sorted, models.expanded, models.paginated]

namespace TableState

def identityIndex (state : TableState Number) : TableSourceIdentityIndex :=
  .new state.rows state.sourceSnapshot

/-- Every source row has an identity that no other row of its table has, and that leads
back to it. -/
structure IdentifiesRows (sort : SliceSort (TableResolvedRow Number × TableRowNodes Number))
    (state : TableState Number) : Prop where
  assigned : state.identityIndex.identitiesBySourceIndex.map TableSourceRowIdentity.rowId =
    state.rows.flatten.map TableRow.id
  distinct : state.identityIndex.identitiesBySourceIndex.Nodup
  resolvable : ∀ target sourceIndex, state.identityIndex.lookup target = .found sourceIndex ↔
      state.identityIndex.identitiesBySourceIndex[sourceIndex]? = some target
  core : ∀ row ∈ (state.resolve sort).core, ∃ sourceIndex source target,
    row.sourceIndex = some sourceIndex ∧ row.source = some source ∧
      row.identity = .source target ∧ state.rows.flatten[sourceIndex]? = some source ∧
        state.identityIndex.lookup target = .found sourceIndex
  models : ∀ rows ∈ (state.resolve sort).all, (identitiesOf rows).Nodup

variable (sort : SliceSort (TableResolvedRow Number × TableRowNodes Number))
variable (state : TableState Number)

theorem identityIndex_indexes :
    state.identityIndex.Indexes state.rows.flatten state.sourceSnapshot :=
  new_indexes _ _

theorem identities_eq : state.sourceContext.identities =
    state.identityIndex.identitiesBySourceIndex :=
  (identities_eq_sourceRowIdentities _ _).symm

theorem rowIds_identities :
    state.identityIndex.identitiesBySourceIndex.map TableSourceRowIdentity.rowId =
      state.rows.flatten.map TableRow.id := by
  have hnumber := @Tally.map_fst_number _ _ _ TableRow.id .empty state.rows.flatten
  rw [← hnumber, state.identityIndex_indexes.identities, map_map, map_map]
  rfl

theorem length_identities :
    state.identityIndex.identitiesBySourceIndex.length = state.rows.flatten.length := by
  have hlength := congrArg length state.rowIds_identities
  rw [length_map, length_map] at hlength
  exact hlength

theorem identifies_core {row : TableResolvedRow Number} (hrow : row ∈ state.sourceNodes.flatten) :
    ∃ sourceIndex source target, row.sourceIndex = some sourceIndex ∧
      row.source = some source ∧ row.identity = .source target ∧
        state.rows.flatten[sourceIndex]? = some source ∧
          state.identityIndex.lookup target = .found sourceIndex := by
  have hplaced : PlacedFrom state.sourceContext 0 state.rows.flatten
      state.sourceNodes.flatten := (placedFrom_buildSourceRowNodes _ _ _ _ _ _).2
  obtain ⟨sourceIndex, source, hsource, hrowSource, hindex, hidentity⟩ := hplaced row hrow
  rw [Nat.zero_add] at hindex hidentity
  refine ⟨sourceIndex, source, _, hindex, hrowSource, hidentity, hsource, ?_⟩
  have hlt : sourceIndex < state.identityIndex.identitiesBySourceIndex.length := by
    rw [state.length_identities]
    exact (List.getElem?_eq_some_iff.mp hsource).1
  rw [state.identityIndex_indexes.lookup_eq_found_iff, SourceRowContext.identityAt,
    identities_eq, getD_eq_getElem?_getD, getElem?_eq_getElem hlt]
  rfl

theorem nodup_core : (identitiesOf state.sourceNodes.flatten).Nodup := by
  have hindices : (state.sourceNodes.flatten.map TableResolvedRow.sourceIndex).Nodup :=
    state.built_sourceNodes.indexed.nodup
  rw [List.Nodup, pairwise_map] at hindices
  rw [identitiesOf, List.Nodup, pairwise_map]
  apply hindices.imp_of_mem
  intro first second hfirst hsecond hapart hsame
  obtain ⟨sourceIndex, _, target, hindex, _, hidentity, _, hfound⟩ := state.identifies_core hfirst
  obtain ⟨sourceIndex', _, target', hindex', _, hidentity', _, hfound'⟩ :=
    state.identifies_core hsecond
  have htarget : target = target' := by
    rw [hidentity, hidentity', source.injEq] at hsame
    exact hsame
  rw [htarget, hfound', TableSourceRowLookup.found.injEq] at hfound
  rw [hindex, hindex', hfound] at hapart
  exact hapart rfl

theorem nodup_filtered : (identitiesOf state.filteredNodes.flatten).Nodup :=
  state.nodup_core.sublist (state.filtered_sublist.map _)

theorem groupIdentitiesOf_filtered : groupIdentitiesOf state.filteredNodes.flatten = [] := by
  rw [groupIdentitiesOf_eq_nil_iff]
  intro row hrow
  obtain ⟨_, _, _, _, _, hidentity, _⟩ := state.identifies_core (state.filtered_sublist.subset hrow)
  rw [hidentity]
  rfl

theorem nodup_grouped : (identitiesOf state.groupedNodes.flatten).Nodup := by
  rw [groupedNodes]
  by_cases hgrouping : state.grouping.isEmpty = true
  · rw [if_pos hgrouping]
    exact state.nodup_filtered
  · rw [if_neg hgrouping]
    obtain ⟨hsource, hgroup, -⟩ := @identities_buildGroupNodes _ _ state.aggregateCells
      state.grouping _ state.groupIdentitiesOf_filtered 0 [] none
    apply nodup_of_kinds _ hgroup
    apply hsource.nodup_iff.mpr
    apply state.nodup_filtered.filterMap
    intro first second identity hfirst hsecond
    cases first with
    | source one =>
      cases second with
      | source two =>
        have hone := Option.some.inj hfirst
        have htwo := Option.some.inj hsecond
        rw [hone, htwo]
      | group two => cases hsecond
    | group one => cases hfirst

theorem nodup_sorted : (identitiesOf (state.sortedNodes sort).flatten).Nodup :=
  ((state.sorted_perm_grouped sort).map _).nodup_iff.mpr state.nodup_grouped

theorem expandNodes_sublist (nodes : TableRowNodes Number) :
    (state.expandNodes nodes).Sublist nodes.flatten := by
  rw [expandNodes]
  by_cases hmanual : (state.grouping.isEmpty && state.expansionMode == .manual) = true
  · rw [if_pos hmanual]
  · rw [if_neg hmanual]
    exact expand_sublist _ nodes

theorem nodup_expanded : (identitiesOf (state.expandNodes (state.sortedNodes sort))).Nodup :=
  (state.nodup_sorted sort).sublist ((state.expandNodes_sublist _).map _)

theorem identifies_rows : state.IdentifiesRows sort where
  assigned := state.rowIds_identities
  distinct := state.identityIndex_indexes.identities_nodup
  resolvable := state.identityIndex_indexes.lookup_eq_found_iff
  core _ hrow := state.identifies_core hrow
  models := by
    intro rows hrows
    rw [TableRowModels.all] at hrows
    simp only [mem_cons, not_mem_nil, or_false] at hrows
    rcases hrows with rfl | rfl | rfl | rfl | rfl | rfl
    · exact state.nodup_core
    · exact state.nodup_filtered
    · exact state.nodup_grouped
    · exact state.nodup_sorted sort
    · exact state.nodup_expanded sort
    · exact (state.nodup_expanded sort).sublist ((TablePagination.apply_sublist _ _).map _)

end TableState

end OpenGpui.UiCore
