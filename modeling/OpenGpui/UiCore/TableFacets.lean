/-
Facets of columns: the values that the rows show in a column, each with the number of
rows that have it, and when these numbers foretell what a filter on the value leaves.
-/
import Mathlib.Data.List.Induction
import OpenGpui.UiCore.TableRows

namespace OpenGpui.UiCore

open List TableScalars

/-- What facets look at in numbers: the zeros, which they take for one. -/
class FacetScalars (Number : Type) extends TableScalars Number where
  zero : Number
  isZero : Number → Bool
  toText_ne_empty : ∀ value, toText value ≠ ""

theorem intText_ne_empty (value : Int) : toString value ≠ "" := by
  cases value with
  | ofNat size => exact Nat.repr_ne_empty
  | negSucc size =>
    intro h
    have hlength := congrArg String.length h
    simp [toString, Int.repr] at hlength

instance : FacetScalars Int where
  zero := 0
  isZero value := value == 0
  toText_ne_empty := intText_ne_empty

inductive TableFacetValueKey (Number : Type) where
  | empty
  | bool (value : Bool)
  | number (value : Number)
  | text (value : String)
deriving DecidableEq

structure TableFacetValueCount (Number : Type) where
  value : TableCellValue Number
  count : Nat

structure TableFacetRange (Number : Type) where
  min : Number
  max : Number

structure TableColumnFacets (Number : Type) where
  column : TableColumnId
  mode : TableStageMode
  rowCount : Nat
  uniqueValues : List (TableFacetValueCount Number)
  numericRange : Option (TableFacetRange Number)

variable {Number : Type} [FacetScalars Number]

/-- The source turns the number into bits that are ordered as numbers are. -/
def tableFacetNumberKey (value : Number) : Number :=
  if FacetScalars.isZero value then FacetScalars.zero else value

namespace TableFacetValueKey

def fromValue : TableCellValue Number → TableFacetValueKey Number
  | .empty => empty
  | .bool value => bool value
  | .number value => number (tableFacetNumberKey value)
  | .text value => text value

/-- Keys in the order their variants are declared in, compared part by part. -/
def sortKey : TableFacetValueKey Number → Nat ×ₗ Bool ×ₗ Number ×ₗ String
  | empty => toLex (0, toLex (false, toLex (FacetScalars.zero, "")))
  | bool value => toLex (1, toLex (value, toLex (FacetScalars.zero, "")))
  | number value => toLex (2, toLex (false, toLex (value, "")))
  | text value => toLex (3, toLex (false, toLex (FacetScalars.zero, value)))

theorem sortKey_injective : Function.Injective (sortKey : TableFacetValueKey Number → _) := by
  intro left right h
  cases left <;> cases right <;> simp_all [sortKey]

instance : LinearOrder (TableFacetValueKey Number) := .lift' sortKey sortKey_injective

instance : Std.LawfulEqOrd (TableFacetValueKey Number) where
  eq_of_compare h := compare_eq_iff_eq.mp h

end TableFacetValueKey

def TableFacetRange.new (left right : Number) : Option (TableFacetRange Number) :=
  if !TableScalars.isFinite left || !TableScalars.isFinite right then none
  else if lessOrEqual left right then some ⟨left, right⟩
  else some ⟨right, left⟩

/-- What a pass over rows has counted; the least and the greatest finite number, once
there is one. -/
structure TableFacetCounts (Number : Type) [FacetScalars Number] where
  rowCount : Nat
  uniqueValues : KeyMap (TableFacetValueKey Number) (TableFacetValueCount Number)
  extremes : Option (Number × Number)

namespace TableFacetCounts

def empty : TableFacetCounts Number := ⟨0, ∅, none⟩

def recordNumber (extremes : Option (Number × Number)) (number : Number) :
    Option (Number × Number) :=
  if isFinite number then
    match extremes with
    | none => some (number, number)
    | some (min, max) =>
      some (if less number min then number else min, if less max number then number else max)
  else extremes

end TableFacetCounts

variable (column : TableColumnId)

def recordColumnFacetValue (counts : TableFacetCounts Number)
    (row : TableResolvedRow Number) : TableFacetCounts Number :=
  let value := (row.cell column).getD .empty
  let key := TableFacetValueKey.fromValue value
  { rowCount := counts.rowCount + 1
    uniqueValues :=
      match counts.uniqueValues[key]? with
      | some entry => counts.uniqueValues.insert key { entry with count := entry.count + 1 }
      | none => counts.uniqueValues.insert key ⟨value, 1⟩
    extremes :=
      match value with
      | .number number => TableFacetCounts.recordNumber counts.extremes number
      | _ => counts.extremes }

variable (row : TableResolvedRow Number)

def rowMatchesFacetFilters
    (filters : List (TableFilter Number)) (excludedColumn : TableColumnId) : Bool :=
  filters.all fun filter => filter.column == excludedColumn ||
    row.source.any fun source => filter.matchesCells source.cells

/-- Unlike the filtered model, a row without a source passes here. -/
def resolvedRowMatchesGlobalFilter
    (globalFilter : Option String) (globalFilterableColumns : List TableColumnId) : Bool :=
  match row.source with
  | some source => cellsMatchGlobalFilter source.cells globalFilter globalFilterableColumns
  | none => true

/-- Visits the rows that pass, going on below a row only when it does. -/
def visitFacetRows {σ : Type} (filters : List (TableFilter Number))
    (excludedColumn : TableColumnId) (globalFilter : Option String)
    (globalFilterableColumns : List TableColumnId) (filteringMode : TableStageMode)
    (visit : σ → TableResolvedRow Number → σ) : TableRowNodes Number → σ → σ
  | .nil, state => state
  | .cons row children rest, state =>
    let below := visitFacetRows filters excludedColumn globalFilter
      globalFilterableColumns filteringMode visit children
    let after := visitFacetRows filters excludedColumn globalFilter
      globalFilterableColumns filteringMode visit rest
    if filteringMode ≠ .manual && !rowMatchesFacetFilters row filters excludedColumn then
      after state
    else if filteringMode ≠ .manual &&
        !resolvedRowMatchesGlobalFilter row globalFilter globalFilterableColumns then
      after state
    else after (below (visit state row))

def resolveClientColumnFacets (sourceNodes : TableRowNodes Number)
    (filters : List (TableFilter Number)) (globalFilter : Option String)
    (globalFilterableColumns : List TableColumnId) (filteringMode : TableStageMode) :
    TableColumnFacets Number :=
  let counts := visitFacetRows filters column globalFilter globalFilterableColumns
    filteringMode (recordColumnFacetValue column) sourceNodes .empty
  { column
    mode := .client
    rowCount := counts.rowCount
    uniqueValues := counts.uniqueValues.toList.map Prod.snd
    numericRange := counts.extremes.bind fun extremes =>
      TableFacetRange.new extremes.1 extremes.2 }

namespace TableState

variable (state : TableState Number)

def clientColumnFacets (column : TableColumnId) :
    TableColumnFacets Number :=
  resolveClientColumnFacets column state.sourceNodes state.filters state.globalFilter
    state.globalFilterableColumns state.filteringMode

/-- The filters on a column replaced by one for a choice of texts. -/
def withColumnChoice (column : TableColumnId)
    (values : List String) : TableState Number :=
  { state with
    filters := (state.filters.filter fun filter => filter.column != column) ++
      [⟨column, .oneOf values⟩] }

end TableState

/-- The value counted for a row, which is empty where the row has no cell. -/
def facetKey (cell : Option (TableCellValue Number)) : TableFacetValueKey Number :=
  .fromValue (cell.getD .empty)

theorem get_uniqueValues (column : TableColumnId) (rows : List (TableResolvedRow Number))
    (key : TableFacetValueKey Number) :
    (rows.foldl (recordColumnFacetValue column) .empty).uniqueValues[key]? =
      ((rows.map fun row => row.cell column).find? fun cell => facetKey cell = key).map
        fun cell => ⟨cell.getD .empty,
          (rows.map fun row => row.cell column).countP fun cell => facetKey cell = key⟩ := by
  induction rows using List.reverseRecOn with
  | nil => exact Std.ExtTreeMap.getElem?_empty
  | append_singleton rows row ih =>
    rw [foldl_append, foldl_cons, foldl_nil, map_append, find?_append]
    generalize hcounts : rows.foldl (recordColumnFacetValue column) .empty = counts at ih ⊢
    generalize hcells : rows.map (fun row => row.cell column) = cells at ih ⊢
    have hown : TableFacetValueKey.fromValue ((row.cell column).getD .empty) =
        facetKey (row.cell column) := rfl
    by_cases hkey : facetKey (row.cell column) = key
    · subst hkey
      simp only [recordColumnFacetValue, hown]
      cases hfind : cells.find? fun cell => facetKey cell = facetKey (row.cell column) with
      | none =>
        have hnone : cells.countP (fun cell => facetKey cell = facetKey (row.cell column)) = 0 := by
          rw [countP_eq_zero]
          exact find?_eq_none.mp hfind
        rw [ih, hfind]
        simp [hnone]
      | some first =>
        rw [ih, hfind]
        simp
    · have hrest : (recordColumnFacetValue column counts row).uniqueValues[key]? =
          counts.uniqueValues[key]? := by
        simp only [recordColumnFacetValue, hown]
        cases counts.uniqueValues[facetKey (row.cell column)]? with
        | none | some entry => exact (KeyMap.get_insert _ _ _ _).trans (if_neg hkey)
      rw [hrest, ih]
      simp [hkey]

end OpenGpui.UiCore
