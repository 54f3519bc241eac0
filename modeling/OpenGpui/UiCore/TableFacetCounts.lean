/-
When facet counts foretell filtering: facets tell cells apart by their typed values, and
a filter by their texts, which only cells that are there have.
-/
import OpenGpui.UiCore.TableFacets

namespace OpenGpui.UiCore

open List TableFacetValueKey TableState

section Lists

variable {α β γ : Type} {entries : List α}

/-- Where one test implies another and as many pass both, they agree. -/
theorem of_countP_eq {p q : α → Bool} (himp : ∀ entry ∈ entries, p entry = true → q entry = true)
    (hcount : entries.countP q = entries.countP p) :
    ∀ entry ∈ entries, q entry = true → p entry = true := by
  induction entries with
  | nil => exact fun entry hentry => absurd hentry not_mem_nil
  | cons first rest ih =>
    have hrest : ∀ entry ∈ rest, p entry = true → q entry = true :=
      fun entry hentry => himp entry (mem_cons_of_mem _ hentry)
    have hle : rest.countP p ≤ rest.countP q := countP_mono_left hrest
    rw [countP_cons, countP_cons] at hcount
    intro entry hentry hq
    by_cases hp : p first = true
    · rw [if_pos hp, if_pos (himp first mem_cons_self hp)] at hcount
      rcases mem_cons.mp hentry with rfl | hin
      · exact hp
      · exact ih hrest (Nat.add_right_cancel hcount) entry hin hq
    · by_cases hqFirst : q first = true
      · rw [if_neg hp, if_pos hqFirst] at hcount
        omega
      · rw [if_neg hp, if_neg hqFirst] at hcount
        rcases mem_cons.mp hentry with rfl | hin
        · exact absurd hq hqFirst
        · exact ih hrest (Nat.add_right_cancel hcount) entry hin hq

variable {entries' : List β} {view' : β → γ} {view : α → γ}

/-- Lists that look the same have as many entries that look a certain way. -/
theorem countP_of_view (h : entries.map view = entries'.map view') (test : γ → Bool) :
    (entries.countP fun entry => test (view entry)) =
      entries'.countP fun entry => test (view' entry) := by
  have hcount := congrArg (List.countP test) h
  rw [countP_map, countP_map] at hcount
  exact hcount

theorem map_filter_of_view {δ : Type}
    (h : entries.map view = entries'.map view') (test : γ → Bool) (f : γ → δ) :
    ((entries.filter fun entry => test (view entry)).map fun entry => f (view entry)) =
      (entries'.filter fun entry => test (view' entry)).map fun entry => f (view' entry) := by
  have hsame := congrArg (fun views => (views.filter test).map f) h
  simp only [filter_map, map_map] at hsame
  exact hsame

end Lists

variable {Number : Type} [FacetScalars Number]

section Cells

/-- The cell is there and has the text. -/
def hasText (text : String) (cell : Option (TableCellValue Number)) : Bool :=
  cell.any fun value => value.filterText == text

/-- The cell is there and is an empty text. -/
def isEmptyText : Option (TableCellValue Number) → Bool
  | some (.text value) => value == ""
  | _ => false

/-- Cells that are there have the same text exactly when a facet takes them for the same
value; and if cells are missing, as many cells are an empty text. -/
structure FacetCellsMatch (cells : List (Option (TableCellValue Number))) : Prop where
  texts : ∀ value other, some value ∈ cells → some other ∈ cells →
    (value.filterText = other.filterText ↔ fromValue value = fromValue other)
  missing : none ∈ cells → cells.countP Option.isNone = cells.countP isEmptyText

/-- The count of every value is that of the cells with the text of its first cell. -/
def PredictsCounts (cells : List (Option (TableCellValue Number))) : Prop :=
  ∀ key cell, (cells.find? fun cell => facetKey cell = key) = some cell →
    cells.countP (hasText (cell.getD .empty).filterText) =
      cells.countP fun cell => facetKey cell = key

variable {cells : List (Option (TableCellValue Number))} {value : TableCellValue Number}

theorem hasText_some_iff {text : String} :
    hasText text (some value) = true ↔ value.filterText = text := by
  rw [hasText, Option.any_some, beq_iff_eq]

theorem facetKey_eq_empty_iff {cell : Option (TableCellValue Number)} :
    facetKey cell = .empty ↔ cell = none ∨ cell = some .empty := by
  cases cell with
  | none => simp [facetKey, fromValue]
  | some value => cases value <;> simp [facetKey, fromValue]

/-- Only the two zeros are one value to a facet and differ. -/
theorem eq_of_fromValue_eq {other : TableCellValue Number} (h : fromValue value = fromValue other)
    (hzero : fromValue value ≠ .number FacetScalars.zero) :
    value = other := by
  cases value with
  | number one =>
    cases other with
    | number two =>
      have hkeys := number.inj h
      have hne : tableFacetNumberKey one ≠ FacetScalars.zero :=
        fun hsame => hzero (congrArg _ hsame)
      have hself : ∀ number : Number, tableFacetNumberKey number ≠ FacetScalars.zero →
          tableFacetNumberKey number = number := by
        intro number hnumber
        rw [tableFacetNumberKey] at hnumber ⊢
        by_cases his : FacetScalars.isZero number = true
        · rw [if_pos his] at hnumber
          exact absurd rfl hnumber
        · rw [if_neg his]
      have hne' : tableFacetNumberKey two ≠ FacetScalars.zero := by
        rw [← hkeys]
        exact hne
      rw [hself one hne, hself two hne'] at hkeys
      rw [hkeys]
    | empty | text _ | bool _ => cases h
  | empty | text _ | bool _ =>
    cases other <;> simp_all [fromValue]

theorem eq_number_of_fromValue {key : Number} (h : fromValue value = .number key) :
    ∃ number, value = .number number := by
  cases value with
  | number number => exact ⟨number, rfl⟩
  | empty | text _ | bool _ => cases h

section Necessary

variable {value : TableCellValue Number}

/-- The first cell of a value that is not empty, and what its count says. -/
theorem PredictsCounts.first (hpredicts : PredictsCounts cells) (hvalue : some value ∈ cells)
    (hne : fromValue value ≠ .empty) :
    ∃ first, some first ∈ cells ∧ fromValue first = fromValue value ∧
        cells.countP (hasText first.filterText) = cells.countP fun cell =>
          facetKey cell = fromValue value := by
  cases hfind : cells.find? fun cell => facetKey cell = fromValue value with
  | none =>
    have hnone := find?_eq_none.mp hfind _ hvalue
    simp [facetKey] at hnone
  | some cell =>
    have hkey : facetKey cell = fromValue value := by
      simpa using find?_some hfind
    have hcount := hpredicts _ _ hfind
    cases cell with
    | none => exact absurd hkey.symm hne
    | some first => exact ⟨first, mem_of_find?_eq_some hfind, hkey, hcount⟩

variable {other : TableCellValue Number} (hpredicts : PredictsCounts cells)

include hpredicts

variable (hvalue : some value ∈ cells)

include hvalue

/-- A value all of whose cells have one text is the only one with this text. -/
theorem PredictsCounts.key_of_text (hne : fromValue value ≠ .empty)
    (hsingle : ∀ same, some same ∈ cells → fromValue same = fromValue value →
        same.filterText = value.filterText)
    (hother : some other ∈ cells) (htext : other.filterText = value.filterText) :
    fromValue other = fromValue value := by
  obtain ⟨first, hfirst, hkey, hcount⟩ := hpredicts.first hvalue hne
  have hfirstText := hsingle first hfirst hkey
  have hagree := of_countP_eq (p := fun cell =>
      decide (facetKey cell = fromValue value))
    (q := hasText first.filterText) ?_ hcount (some other) hother ?_
  · exact of_decide_eq_true hagree
  · intro cell hcell hsame
    have hcellKey : facetKey cell = fromValue value := of_decide_eq_true hsame
    cases cell with
    | none => exact absurd hcellKey.symm hne
    | some same =>
      rw [hasText_some_iff, hfirstText]
      exact hsingle same hcell hcellKey
  · rw [hasText_some_iff, hfirstText, htext]

variable (hother : some other ∈ cells)

include hother

/-- Zeros that are one value to the facet have one text. -/
theorem PredictsCounts.text_of_zero (hzero : fromValue value = .number FacetScalars.zero)
    (hsame : fromValue other = fromValue value) :
    other.filterText = value.filterText := by
  have hne : fromValue value ≠ .empty := by
    rw [hzero]
    exact fun h => by cases h
  obtain ⟨first, hfirst, hkey, hcount⟩ := hpredicts.first hvalue hne
  obtain ⟨zero, rfl⟩ := eq_number_of_fromValue (hkey.trans hzero)
  -- every cell with the text of the first is a zero, for it would be another value's only text
  have hzeros : ∀ cell ∈ cells, hasText (TableCellValue.number zero).filterText cell = true →
        decide (facetKey cell = fromValue value) = true := by
    intro cell hcell htext
    rw [decide_eq_true_iff]
    cases cell with
    | none => cases htext
    | some same =>
      rw [hasText_some_iff] at htext
      by_contra hapart
      have hapart' : fromValue same ≠ .number FacetScalars.zero := by
        intro h
        exact hapart (h.trans hzero.symm)
      have hnonempty : fromValue same ≠ .empty := by
        intro h
        have hempty := facetKey_eq_empty_iff.mp (show facetKey (some same) = .empty from h)
        rw [Option.some.injEq] at hempty
        rw [hempty.resolve_left (fun h => by cases h)] at htext
        exact FacetScalars.toText_ne_empty zero htext.symm
      have hback := hpredicts.key_of_text hcell hnonempty
        (fun third _ hthird => by rw [eq_of_fromValue_eq hthird.symm hapart']) hfirst
        htext.symm
      exact hapart (hback.symm.trans hkey)
  have hall := of_countP_eq hzeros hcount.symm
  have htexts : ∀ same, some same ∈ cells → fromValue same = fromValue value →
        same.filterText = (TableCellValue.number zero).filterText := by
    intro same hmem hsameKey
    have hhas := hall (some same) hmem (decide_eq_true hsameKey)
    exact hasText_some_iff.mp hhas
  rw [htexts other hother hsame, htexts value hvalue rfl]

theorem PredictsCounts.text_of_key (hsame : fromValue other = fromValue value) :
    other.filterText = value.filterText := by
  by_cases hzero : fromValue value = .number FacetScalars.zero
  · exact hpredicts.text_of_zero hvalue hother hzero hsame
  · rw [eq_of_fromValue_eq hsame.symm hzero]

theorem PredictsCounts.texts (htext : value.filterText = other.filterText) :
    fromValue value = fromValue other := by
  by_cases hne : fromValue other = .empty
  · by_cases hne' : fromValue value = .empty
    · rw [hne, hne']
    · exact (hpredicts.key_of_text hvalue hne'
        (fun same hmem hsame => hpredicts.text_of_key hvalue hmem hsame) hother htext.symm).symm
  · exact hpredicts.key_of_text hother hne
      (fun same hmem hsame => hpredicts.text_of_key hother hmem hsame) hvalue htext

end Necessary

theorem countP_facetKey_empty (hgiven : some .empty ∉ cells) :
    (cells.countP fun cell => facetKey cell = .empty) = cells.countP Option.isNone := by
  apply countP_congr
  intro cell hcell
  rw [decide_eq_true_iff, facetKey_eq_empty_iff, Option.isNone_iff_eq_none]
  exact or_iff_left fun h => hgiven (h ▸ hcell)

theorem countP_hasText_empty (hgiven : some .empty ∉ cells) :
    cells.countP (hasText "") = cells.countP isEmptyText := by
  apply countP_congr
  intro cell hcell
  cases cell with
  | none => exact Iff.rfl
  | some value =>
    rw [hasText_some_iff]
    cases value with
    | text value => exact beq_iff_eq.symm
    | empty => exact absurd hcell hgiven
    | number value =>
      exact iff_of_false (FacetScalars.toText_ne_empty value) fun h => by cases h
    | bool value =>
      have hbool : (TableCellValue.bool value : TableCellValue Number).filterText ≠ "" := by
        cases value with
        | false => exact fun h => absurd h (show "false" ≠ "" by decide)
        | true => exact fun h => absurd h (show "true" ≠ "" by decide)
      exact iff_of_false hbool fun h => by cases h

section

variable (hmatch : FacetCellsMatch cells)

include hmatch

/-- With a missing cell there is none that is given as empty, but one that is an empty
text. -/
theorem FacetCellsMatch.of_missing (hnone : none ∈ cells) :
    some (.text "") ∈ cells ∧ some .empty ∉ cells := by
  have hpos : 0 < cells.countP isEmptyText := by
    rw [← hmatch.missing hnone]
    exact countP_pos_iff.mpr ⟨none, hnone, rfl⟩
  obtain ⟨cell, hcell, hempty⟩ := countP_pos_iff.mp hpos
  have htext : cell = some (.text "") := by
    cases cell with
    | none => cases hempty
    | some value =>
      cases value with
      | text value => rw [eq_of_beq hempty]
      | empty | number _ | bool _ => cases hempty
  rw [htext] at hcell
  refine ⟨hcell, ?_⟩
  intro hgiven
  have hkeys := (hmatch.texts _ _ hgiven hcell).mp rfl
  cases hkeys

/-- The count of a value and that of its text are of the same cells. -/
theorem FacetCellsMatch.countP_eq {value : TableCellValue Number} (hvalue : some value ∈ cells)
    (hpresent : fromValue value ≠ .empty ∨ none ∉ cells) :
    cells.countP (hasText value.filterText) =
      cells.countP fun cell => facetKey cell = fromValue value := by
  apply countP_congr
  intro cell hcell
  rw [decide_eq_true_iff]
  cases cell with
  | none =>
    constructor
    · exact fun h => by cases h
    · intro hkey
      have hempty : fromValue value = .empty := hkey.symm
      exact absurd hcell (hpresent.resolve_left fun h => h hempty)
  | some other =>
    rw [hasText_some_iff]
    exact hmatch.texts other value hcell hvalue

theorem FacetCellsMatch.predictsCounts : PredictsCounts cells := by
  intro key cell hfind
  have hcell := mem_of_find?_eq_some hfind
  have hkey : facetKey cell = key := by simpa using find?_some hfind
  subst hkey
  by_cases hnone : none ∈ cells ∧ facetKey cell = .empty
  · -- the missing cells are counted, and the empty texts are found
    obtain ⟨htext, hgiven⟩ := hmatch.of_missing hnone.1
    have hcellNone : cell = none := by
      rcases facetKey_eq_empty_iff.mp hnone.2 with h | h
      · exact h
      · exact absurd (h ▸ hcell) hgiven
    rw [hnone.2, countP_facetKey_empty hgiven, hmatch.missing hnone.1,
      ← countP_hasText_empty hgiven, hcellNone]
    rfl
  · cases cell with
    | none => exact absurd ⟨hcell, rfl⟩ hnone
    | some value =>
      apply hmatch.countP_eq hcell
      by_cases hempty : facetKey (some value) = .empty
      · exact .inr fun h => hnone ⟨h, hempty⟩
      · exact .inl hempty

end

/-- Facet counts are those of the filters on their texts exactly when the cells match. -/
theorem predictsCounts_iff : PredictsCounts cells ↔ FacetCellsMatch cells := by
  constructor
  · intro hpredicts
    have htexts : ∀ value other, some value ∈ cells → some other ∈ cells →
        (value.filterText = other.filterText ↔ fromValue value = fromValue other) := by
      intro value other hvalue hother
      constructor
      · exact hpredicts.texts hvalue hother
      · intro hkeys
        exact hpredicts.text_of_key hother hvalue hkeys
    refine ⟨htexts, ?_⟩
    intro hnone
    -- the facet of the empty value counts the missing cells and those given as empty
    have hfound : ∃ cell, (cells.find? fun cell => facetKey cell = .empty) = some cell := by
      rw [← Option.isSome_iff_exists, find?_isSome]
      exact ⟨none, hnone, by simp [facetKey, fromValue]⟩
    obtain ⟨cell, hfind⟩ := hfound
    have hcellKey : facetKey cell = .empty := by simpa using find?_some hfind
    have hcount := hpredicts _ _ hfind
    have htext : (cell.getD .empty).filterText = "" := by
      rcases facetKey_eq_empty_iff.mp hcellKey with rfl | rfl
      · rfl
      · rfl
    rw [htext] at hcount
    have hgiven : some .empty ∉ cells := by
      intro hmem
      have hless : ∀ entry ∈ cells, hasText "" entry = true →
          decide (facetKey entry = .empty) = true := by
        intro entry hentry hhas
        rw [decide_eq_true_iff]
        cases entry with
        | none => rfl
        | some value =>
          exact (htexts value .empty hentry hmem).mp (hasText_some_iff.mp hhas)
      have hall := of_countP_eq hless hcount.symm none hnone (by
        simp [facetKey, fromValue])
      cases hall
    rw [← countP_facetKey_empty hgiven, ← hcount, countP_hasText_empty hgiven]
  · exact FacetCellsMatch.predictsCounts

end Cells

section Tables

variable {σ : Type} (filters : List (TableFilter Number)) (excludedColumn : TableColumnId)
  (globalFilter : Option String) (globalFilterableColumns : List TableColumnId)
  (filteringMode : TableStageMode)

variable (row : TableResolvedRow Number)

/-- Whether a visit goes through a row. -/
def facetPasses : Bool :=
  filteringMode == .manual || (rowMatchesFacetFilters row filters excludedColumn &&
    resolvedRowMatchesGlobalFilter row globalFilter globalFilterableColumns)

theorem resolvedRowMatchesGlobalFilter_eq :
    resolvedRowMatchesGlobalFilter row globalFilter globalFilterableColumns =
      row.source.all fun source =>
        cellsMatchGlobalFilter source.cells globalFilter globalFilterableColumns := by
  rw [resolvedRowMatchesGlobalFilter]
  cases row.source <;> rfl

theorem visitFacetRows_eq (visit : σ → TableResolvedRow Number → σ)
    (nodes : TableRowNodes Number) (state : σ) :
    visitFacetRows filters excludedColumn globalFilter globalFilterableColumns filteringMode
        visit nodes state =
      (nodes.prune (facetPasses filters excludedColumn globalFilter globalFilterableColumns
        filteringMode)).flatten.foldl visit state := by
  induction nodes generalizing state with
  | nil => rfl
  | cons row children rest ihChildren ihRest =>
    simp only [visitFacetRows, Forest.prune, ihChildren, ihRest]
    by_cases hpasses : facetPasses filters excludedColumn globalFilter
        globalFilterableColumns filteringMode row = true
    · have hgo : ¬((filteringMode ≠ .manual && !rowMatchesFacetFilters row filters excludedColumn) =
          true) ∧ ¬((filteringMode ≠ .manual && !resolvedRowMatchesGlobalFilter row globalFilter
          globalFilterableColumns) = true) := by
        cases filteringMode <;> simp_all [facetPasses]
      rw [if_pos hpasses, if_neg hgo.1, if_neg hgo.2, Forest.flatten, foldl_cons, foldl_append]
    · rw [if_neg hpasses]
      by_cases hfilters : (filteringMode ≠ .manual &&
          !rowMatchesFacetFilters row filters excludedColumn) = true
      · rw [if_pos hfilters]
      · have hglobal : (filteringMode ≠ .manual && !resolvedRowMatchesGlobalFilter row
            globalFilter globalFilterableColumns) = true := by
          cases filteringMode <;> simp_all [facetPasses]
        rw [if_neg hfilters, if_pos hglobal]

/-- The source and the cells of a row. -/
def sourceView :
    Option (TableRow Number) × KeyMap TableColumnId (TableCellValue Number) :=
  (row.source, row.cells)

omit [FacetScalars Number] in
/-- Flat source rows become flat nodes, one for each with its cells. -/
theorem flat_buildSourceRowNodes (context : SourceRowContext)
    {rows : Forest (TableRow Number)} (hflat : rows.IsFlat) (ancestorSelected : Bool)
    (sourceIndex : Nat) (parentIdentity : Option TableRowIdentity) (depth : Nat) :
    (buildSourceRowNodes context rows ancestorSelected sourceIndex parentIdentity depth).1.IsFlat ∧
      (buildSourceRowNodes context rows ancestorSelected sourceIndex parentIdentity
        depth).1.flatten.map sourceView =
          rows.flatten.map fun source => (some source, source.cells) := by
  induction rows generalizing sourceIndex with
  | nil => exact ⟨trivial, rfl⟩
  | cons row children rest _ ihRest =>
    obtain ⟨rfl, hrest⟩ := hflat
    rw [buildSourceRowNodes]
    have hnil : ∀ selected identity, (if context.includeChildren then
        buildSourceRowNodes context (.nil : Forest (TableRow Number)) selected
          (sourceIndex + 1) (some identity) (depth + 1)
        else (.nil, sourceIndex + 1 + countTableRows (.nil : Forest (TableRow Number)))) =
          (.nil, sourceIndex + 1) := by
      intro selected identity
      cases context.includeChildren <;> rfl
    simp only [hnil]
    obtain ⟨hflatRest, hviews⟩ := ihRest hrest (sourceIndex + 1)
    refine ⟨⟨rfl, hflatRest⟩, ?_⟩
    exact congrArg (fun views => (some row, row.cells) :: views) hviews

namespace TableState

variable (state : TableState Number) (column : TableColumnId)

/-- The row passes the filters on other columns and the global filter. -/
def passesOtherFilters (source : TableRow Number) : Bool :=
  (state.filters.all fun filter =>
    filter.column == column || filter.matchesCells source.cells) &&
      cellsMatchGlobalFilter source.cells state.globalFilter state.globalFilterableColumns

/-- The cells in a column of the rows that pass the other filters, where they have any. -/
def facetCells : List (Option (TableCellValue Number)) :=
  (state.rows.flatten.filter (state.passesOtherFilters column)).map fun source =>
    source.cells[column]?

/-- Choosing a facet value leaves as many rows as its count says. -/
def FacetsPredictFiltering
    (sort : SliceSort (TableResolvedRow Number × TableRowNodes Number)) : Prop :=
  ∀ facet ∈ (state.clientColumnFacets column).uniqueValues,
    ((state.withColumnChoice column [facet.value.filterText]).resolve sort).filtered.length =
      facet.count

variable {state}

theorem sourceView_sourceNodes (hflat : state.rows.IsFlat) :
    state.sourceNodes.IsFlat ∧ state.sourceNodes.flatten.map sourceView =
      state.rows.flatten.map fun source => (some source, source.cells) :=
  flat_buildSourceRowNodes _ hflat _ _ _ _

section

variable (hmode : state.filteringMode = .client)

include hmode

variable (hflat : state.rows.IsFlat)

include hflat

theorem visited_cells :
    ((state.sourceNodes.prune (facetPasses state.filters column state.globalFilter
      state.globalFilterableColumns state.filteringMode)).flatten.map fun row =>
        row.cell column) = state.facetCells column := by
  obtain ⟨hnodes, hviews⟩ := state.sourceView_sourceNodes hflat
  rw [hnodes.flatten_prune, hmode]
  unfold facetPasses
  simp only [resolvedRowMatchesGlobalFilter_eq]
  exact map_filter_of_view hviews
    (fun view => (state.filters.all fun filter => filter.column == column ||
        view.1.any fun source => filter.matchesCells source.cells) &&
      view.1.all fun source => cellsMatchGlobalFilter source.cells state.globalFilter
        state.globalFilterableColumns) fun view => view.2[column]?

theorem mem_uniqueValues_iff {facet : TableFacetValueCount Number} :
    facet ∈ (state.clientColumnFacets column).uniqueValues ↔ ∃ key cell,
      ((state.facetCells column).find? fun cell => facetKey cell = key) = some cell ∧
        facet = ⟨cell.getD .empty,
          (state.facetCells column).countP fun cell => facetKey cell = key⟩ := by
  rw [clientColumnFacets, resolveClientColumnFacets, mem_map]
  simp only [visitFacetRows_eq]
  constructor
  · rintro ⟨⟨key, entry⟩, hentry, rfl⟩
    rw [KeyMap.mem_toList_iff_get, get_uniqueValues, visited_cells column hmode hflat,
      Option.map_eq_some_iff] at hentry
    obtain ⟨cell, hfind, hfacet⟩ := hentry
    exact ⟨key, cell, hfind, hfacet.symm⟩
  · rintro ⟨key, cell, hfind, rfl⟩
    refine ⟨(key, _), ?_, rfl⟩
    rw [KeyMap.mem_toList_iff_get, get_uniqueValues, visited_cells column hmode hflat, hfind]
    rfl

theorem flatten_filteredNodes (hfilters : state.filters ≠ []) :
    state.filteredNodes.flatten = state.sourceNodes.flatten.filter fun row =>
      (row.source.any fun source => state.filters.all fun filter =>
        filter.matchesCells source.cells) &&
      (state.globalFilter.all String.isEmpty || row.source.any fun source =>
        cellsMatchGlobalFilter source.cells state.globalFilter state.globalFilterableColumns) := by
  obtain ⟨hnodes, -⟩ := state.sourceView_sourceNodes hflat
  have hclient : ¬ state.filteringMode = .manual := by
    rw [hmode]
    exact fun h => by cases h
  have hsome : ¬ state.filters.isEmpty = true := by
    rw [List.isEmpty_iff]
    exact hfilters
  rw [filteredNodes, if_neg hclient, filterSourceRowNodes, if_neg hsome,
    filterSourceRowNodesByGlobalQuery]
  by_cases hquery : state.globalFilter.all String.isEmpty = true
  · rw [if_pos hquery, hnodes.flatten_prune]
    apply filter_congr
    intro row _
    rw [hquery, Bool.true_or, Bool.and_true]
  · rw [if_neg hquery, (hnodes.prune _).flatten_prune, hnodes.flatten_prune, filter_filter]
    apply filter_congr
    intro row _
    rw [Bool.not_eq_true] at hquery
    rw [hquery, Bool.false_or, Bool.and_comm]

end

/-- A query of nothing is passed by every row. -/
theorem cellsMatchGlobalFilter_of_empty {globalFilter : Option String}
    (hquery : globalFilter.all String.isEmpty = true)
    (cells : KeyMap TableColumnId (TableCellValue Number)) (columns : List TableColumnId) :
    cellsMatchGlobalFilter cells globalFilter columns = true := by
  cases globalFilter with
  | none => rfl
  | some query =>
    have hempty : query.isEmpty = true := hquery
    simp [cellsMatchGlobalFilter, hempty]

theorem length_filtered_withColumnChoice (hmode : state.filteringMode = .client)
    (hflat : state.rows.IsFlat)
    (sort : SliceSort (TableResolvedRow Number × TableRowNodes Number)) (text : String) :
    ((state.withColumnChoice column [text]).resolve sort).filtered.length =
      (state.facetCells column).countP (hasText text) := by
  have hflattened := @flatten_filteredNodes _ _ (state.withColumnChoice column [text]) hmode
    hflat (by simp [withColumnChoice])
  have hviews := (@sourceView_sourceNodes _ _ (state.withColumnChoice column [text]) hflat).2
  have hfiltered : ((state.withColumnChoice column [text]).resolve sort).filtered =
      (state.withColumnChoice column [text]).filteredNodes.flatten := rfl
  rw [hfiltered, hflattened, ← countP_eq_length_filter, facetCells, countP_map, countP_filter]
  refine (countP_of_view hviews fun view =>
    (view.1.any fun source => (state.withColumnChoice column [text]).filters.all fun filter =>
      filter.matchesCells source.cells) &&
    (state.globalFilter.all String.isEmpty || view.1.any fun source =>
      cellsMatchGlobalFilter source.cells state.globalFilter
        state.globalFilterableColumns)).trans ?_
  apply countP_congr
  intro source _
  have hchoice : (⟨column, .oneOf [text]⟩ : TableFilter Number).matchesCells source.cells =
      hasText text source.cells[column]? := by
    simp only [TableFilter.matchesCells, hasText, isEmpty_cons, Bool.false_or]
    congr 1
    funext value
    rw [contains_cons, contains_nil, Bool.or_false]
  have hglobal : (state.globalFilter.all String.isEmpty ||
      cellsMatchGlobalFilter source.cells state.globalFilter state.globalFilterableColumns) =
        cellsMatchGlobalFilter source.cells state.globalFilter state.globalFilterableColumns := by
    by_cases hquery : state.globalFilter.all String.isEmpty = true
    · rw [hquery, cellsMatchGlobalFilter_of_empty hquery]
      rfl
    · rw [Bool.not_eq_true] at hquery
      rw [hquery, Bool.false_or]
  have hothers : ((state.filters.filter fun filter => filter.column != column).all
      fun filter => filter.matchesCells source.cells) = state.filters.all fun filter =>
          filter.column == column || filter.matchesCells source.cells := by
    rw [all_filter]
    congr 1
    funext filter
    cases hsame : filter.column == column <;> simp [bne, hsame]
  simp only [withColumnChoice, Option.any_some, all_append, all_cons, all_nil, Bool.and_true,
    hchoice, hothers, hglobal, Function.comp_def, passesOtherFilters, Bool.and_eq_true]
  tauto

/-- Facet counts foretell filtering exactly when facets and filters tell the cells of the
column apart alike. -/
theorem facetsPredictFiltering_iff_predictsCounts (hmode : state.filteringMode = .client)
    (hflat : state.rows.IsFlat)
    (sort : SliceSort (TableResolvedRow Number × TableRowNodes Number)) :
    state.FacetsPredictFiltering column sort ↔ PredictsCounts (state.facetCells column) := by
  constructor
  · intro hpredicts key cell hfind
    have hcount := hpredicts _ ((mem_uniqueValues_iff column hmode hflat).mpr
      ⟨key, cell, hfind, rfl⟩)
    rw [length_filtered_withColumnChoice column hmode hflat] at hcount
    exact hcount
  · intro hpredicts facet hfacet
    obtain ⟨key, cell, hfind, rfl⟩ := (mem_uniqueValues_iff column hmode hflat).mp hfacet
    rw [length_filtered_withColumnChoice column hmode hflat]
    exact hpredicts key cell hfind

theorem facetsPredictFiltering_iff (hmode : state.filteringMode = .client)
    (hflat : state.rows.IsFlat)
    (sort : SliceSort (TableResolvedRow Number × TableRowNodes Number)) :
    state.FacetsPredictFiltering column sort ↔ FacetCellsMatch (state.facetCells column) :=
  (facetsPredictFiltering_iff_predictsCounts column hmode hflat sort).trans predictsCounts_iff

end TableState

end Tables

/-- Two rows with the same text in their column. -/
def teamTable : TableState Int :=
  .new (.cons ((TableRow.new "alpha").withCell "team" (.text "ui")) .nil
    (.cons ((TableRow.new "beta").withCell "team" (.text "ui")) .nil .nil)) 1

theorem facetCells_teamTable :
    teamTable.facetCells "team" = [some (.text "ui"), some (.text "ui")] := by
  simp [teamTable, facetCells, passesOtherFilters, new,
    Forest.flatten, TableRow.withCell, cellsMatchGlobalFilter]

theorem teamTable_facetsPredictFiltering : teamTable.filteringMode = .client ∧
    teamTable.rows.IsFlat ∧ teamTable.FacetsPredictFiltering "team" (SliceSort.insertion _) := by
  have hflat : teamTable.rows.IsFlat := ⟨rfl, rfl, trivial⟩
  refine ⟨rfl, hflat, (facetsPredictFiltering_iff "team" rfl hflat _).mpr ?_⟩
  rw [facetCells_teamTable]
  constructor
  · intro value other hvalue hother
    simp only [mem_cons, not_mem_nil, or_false, or_self, Option.some.injEq] at hvalue hother
    rw [hvalue, hother]
    exact iff_of_true rfl rfl
  · intro hnone
    simp at hnone

/-- One row, without a cell in the column that facets are asked of. -/
def missingCellTable : TableState Int := .new (.cons (.new "alpha") .nil .nil) 1

theorem missingCellTable_not_facetsPredictFiltering :
    missingCellTable.filteringMode = .client ∧ missingCellTable.rows.IsFlat ∧
      ¬missingCellTable.FacetsPredictFiltering "team" (SliceSort.insertion _) := by
  have hcells : missingCellTable.facetCells "team" = [none] := by
    simp [missingCellTable, facetCells, passesOtherFilters,
      new, Forest.flatten, TableRow.new, cellsMatchGlobalFilter]
  have hflat : missingCellTable.rows.IsFlat := ⟨rfl, trivial⟩
  refine ⟨rfl, hflat, ?_⟩
  rw [facetsPredictFiltering_iff_predictsCounts "team" rfl hflat, hcells]
  intro hpredicts
  -- the facet counts the row as empty, and the filter for the empty text leaves none
  have hcount := hpredicts .empty none (by simp [facetKey, fromValue])
  simp [hasText, facetKey, fromValue] at hcount

end OpenGpui.UiCore
