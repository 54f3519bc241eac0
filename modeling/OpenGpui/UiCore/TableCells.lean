/-
Cells, filters and row identities of tables, and when the comparison of cells circles.
Numbers are a parameter: the order the source's `total_cmp` gives them, their text, and
what filters and groups look at.
-/
import OpenGpui.Collections
import OpenGpui.Library.Comparisons
import Mathlib.Data.List.Infix
import Mathlib.Data.Prod.Lex
import Mathlib.Data.String.Basic

namespace OpenGpui.UiCore

open TotalPreorderOn

/-- What tables use of the source's 64-bit floats and of its strings; the linear order
is that of `total_cmp`. -/
class TableScalars (Number : Type) extends LinearOrder Number where
  /-- The text a number is displayed as. -/
  toText : Number → String
  isFinite : Number → Bool
  /-- The bits of the number, one zero and one not-a-number for all of them. -/
  groupBits : Number → Nat
  /-- `<` and `≤` on floats, which `total_cmp` refines. -/
  less : Number → Number → Bool
  lessOrEqual : Number → Number → Bool
  toLowercase : String → String

/-- Whole numbers in the place of floats. -/
instance : TableScalars Int where
  toText := toString
  isFinite _ := true
  groupBits value := if 0 ≤ value then 2 * value.toNat else 2 * (-value).toNat - 1
  less left right := decide (left < right)
  lessOrEqual left right := decide (left ≤ right)
  toLowercase text := text.map Char.toLower

abbrev TableColumnId := String
abbrev TableRowId := String
abbrev TableRowInstanceId := String

/-- What a cell holds. -/
inductive TableCellValue (Number : Type) where
  | empty
  | text (value : String)
  | number (value : Number)
  | bool (value : Bool)

instance (Number : Type) : Inhabited (TableCellValue Number) := ⟨.empty⟩

section Cells

variable {Number : Type} [TableScalars Number]

namespace TableCellValue

def boolText (value : Bool) : String := if value then "true" else "false"

def filterText : TableCellValue Number → String
  | empty => ""
  | text value => value
  | number value => TableScalars.toText value
  | bool value => boolText value

def cmpForSort : TableCellValue Number → TableCellValue Number → Ordering
  | number left, number right => cmp left right
  | bool left, bool right => cmp left right
  | empty, empty => .eq
  | empty, _ => .lt
  | _, empty => .gt
  | left, right => cmp left.filterText right.filterText

end TableCellValue

/-- The haystack has the needle as a substring. -/
def containsText (haystack needle : String) : Bool := decide (needle.toList <:+: haystack.toList)

inductive TableTextFilterOperator where
  | contains
  | notContains
  | equals
  | notEquals
  | startsWith
  | endsWith

inductive TableNumericFilterOperator where
  | greaterThan
  | greaterThanOrEqual
  | lessThan
  | lessThanOrEqual

/-- A numeric bound is finite; a zero bound is the positive zero. -/
structure TableNumericFilterBound (Number : Type) [TableScalars Number] where
  value : Number
  finite : TableScalars.isFinite value = true

inductive TableFilterKind (Number : Type) [TableScalars Number] where
  | contains (query : String)
  | oneOf (values : List String)
  | numberRange (min max : Option (TableNumericFilterBound Number))
  | text (operator : TableTextFilterOperator) (query : String) (caseSensitive : Bool)
  | numberComparison (operator : TableNumericFilterOperator)
      (value : TableNumericFilterBound Number)

/-- A column and what its cells have to be. -/
structure TableFilter (Number : Type) [TableScalars Number] where
  column : TableColumnId
  kind : TableFilterKind Number

variable (Number) in
def tableTextFilterMatches (value query : String) (operator : TableTextFilterOperator)
    (caseSensitive : Bool) : Bool :=
  let lower := TableScalars.toLowercase Number
  let value := if caseSensitive then value else lower value
  let query := if caseSensitive then query else lower query
  match operator with
  | .contains => containsText value query
  | .notContains => !containsText value query
  | .equals => value == query
  | .notEquals => value != query
  | .startsWith => query.toList.isPrefixOf value.toList
  | .endsWith => query.toList.isSuffixOf value.toList

/-- Whether a row with these cells passes the filter. -/
def TableFilter.matchesCells (filter : TableFilter Number)
    (cells : KeyMap TableColumnId (TableCellValue Number)) : Bool :=
  let value := cells[filter.column]?
  match filter.kind with
  | .contains query =>
    let lower := TableScalars.toLowercase Number
    query.isEmpty || value.any fun value =>
      containsText (lower value.filterText) (lower query)
  | .text operator query caseSensitive =>
    query.isEmpty || value.any fun value =>
      tableTextFilterMatches Number value.filterText query operator caseSensitive
  | .oneOf values => values.isEmpty || value.any fun value => values.contains value.filterText
  | .numberRange min max =>
    (min.isNone && max.isNone) || match value with
      | some (.number number) =>
        TableScalars.isFinite number &&
          !(min.any fun bound => TableScalars.less number bound.value) &&
          !(max.any fun bound => TableScalars.less bound.value number)
      | _ => false
  | .numberComparison operator bound =>
    match value with
    | some (.number number) =>
      TableScalars.isFinite number && match operator with
        | .greaterThan => TableScalars.less bound.value number
        | .greaterThanOrEqual => TableScalars.lessOrEqual bound.value number
        | .lessThan => TableScalars.less number bound.value
        | .lessThanOrEqual => TableScalars.lessOrEqual number bound.value
    | _ => false

def cellsMatchGlobalFilter (cells : KeyMap TableColumnId (TableCellValue Number))
    (globalFilter : Option String) (globalFilterableColumns : List TableColumnId) : Bool :=
  match globalFilter with
  | none => true
  | some query =>
    let lower := TableScalars.toLowercase Number
    query.isEmpty || globalFilterableColumns.any fun column =>
      cells[column]?.any fun value => containsText (lower value.filterText) (lower query)

end Cells

/-- What tells the row of an id from the others that share it. -/
inductive TableSourceInstanceIdentity where
  | unique
  | explicit (instanceId : TableRowInstanceId)
  | occurrence (sourceSnapshot : Nat) (occurrence : Nat)
deriving DecidableEq

/-- What tells a source row from all others. -/
structure TableSourceRowIdentity where
  rowId : TableRowId
  instanceIdentity : TableSourceInstanceIdentity
deriving DecidableEq

inductive TableGroupValueIdentity where
  | empty
  | text (value : String)
  | number (bits : Nat)
  | bool (value : Bool)
deriving DecidableEq

def TableGroupValueIdentity.fromCellValue {Number : Type} [TableScalars Number] :
    TableCellValue Number → TableGroupValueIdentity
  | .empty => .empty
  | .text value => .text value
  | .number value => .number (TableScalars.groupBits value)
  | .bool value => .bool value

/-- One level of grouping, by its column and value. -/
structure TableGroupRowSegment where
  columnId : TableColumnId
  value : TableGroupValueIdentity
deriving DecidableEq

/-- The path of a group row, the outermost grouping first. -/
abbrev TableGroupRowIdentity := List TableGroupRowSegment

inductive TableRowIdentity where
  | source (identity : TableSourceRowIdentity)
  | group (identity : TableGroupRowIdentity)
deriving DecidableEq

/-- Values in the order their variants are declared in, as a key that is compared part
by part. -/
def TableGroupValueIdentity.sortKey :
    TableGroupValueIdentity → Nat ×ₗ String ×ₗ Nat
  | empty => toLex (0, toLex ("", 0))
  | text value => toLex (1, toLex (value, 0))
  | number bits => toLex (2, toLex ("", bits))
  | bool value => toLex (3, toLex ("", value.toNat))

def TableGroupRowSegment.sortKey (segment : TableGroupRowSegment) :
    String ×ₗ Nat ×ₗ String ×ₗ Nat :=
  toLex (segment.columnId, segment.value.sortKey)

/-- What ties between rows are broken by: the business id of source rows, which stand
before group rows, and the path of group rows. -/
def TableRowIdentity.tieKey : TableRowIdentity →
    Nat ×ₗ String ×ₗ List (String ×ₗ Nat ×ₗ String ×ₗ Nat)
  | source identity => toLex (0, toLex (identity.rowId, []))
  | group identity => toLex (1, toLex ("", identity.map TableGroupRowSegment.sortKey))

/-! ### When the comparison of cells circles

Numbers have their own order, and are compared with texts and booleans as texts; the two
disagree when a text stands between two numbers the wrong way. -/

namespace TableCellValue

variable {Number : Type}

def number? : TableCellValue Number → Option Number
  | number value => some value
  | _ => none

/-- A text or a boolean, which is compared with numbers as its text. -/
def isTextual : TableCellValue Number → Prop
  | text _ | bool _ => True
  | empty | number _ => False

instance : (value : TableCellValue Number) → Decidable value.isTextual
  | text _ | bool _ => .isTrue trivial
  | empty | number _ => .isFalse id

variable {value : TableCellValue Number}

theorem cases_of_ne_empty (hvalue : value ≠ empty) :
    (∃ number, value = .number number) ∨ value.isTextual := by
  cases value with
  | empty => exact absurd rfl hvalue
  | number value => exact .inl ⟨value, rfl⟩
  | text _ | bool _ => exact .inr trivial

theorem number_ne_empty (number : Number) : TableCellValue.number number ≠ empty := by
  rintro ⟨⟩

theorem ne_empty_of_isTextual (hvalue : value.isTextual) : value ≠ empty := by
  rintro rfl
  exact hvalue

variable [TableScalars Number]

/-- A text or boolean stands between two numbers, against the order the numbers have. -/
def Straddles (low high between : TableCellValue Number) : Prop :=
  ∃ lower ∈ low.number?, ∃ higher ∈ high.number?, lower < higher ∧ between.isTextual ∧
    high.filterText ≤ between.filterText ∧ between.filterText ≤ low.filterText

instance (low high between : TableCellValue Number) : Decidable (low.Straddles high between) :=
  inferInstanceAs (Decidable (∃ _ ∈ _, ∃ _ ∈ _, _))

theorem cmpForSort_swap (left right : TableCellValue Number) :
    right.cmpForSort left = (left.cmpForSort right).swap := by
  cases left <;> cases right <;> first | rfl | exact (cmp_swap _ _).symm

theorem isLE_empty_iff : (value.cmpForSort empty).isLE = true ↔ value = empty := by
  cases value with
  | empty => exact iff_of_true rfl rfl
  | _ => exact iff_of_false Bool.false_ne_true nofun

/-- Booleans too are ordered as their texts are. -/
theorem cmpForSort_of_isTextual {left right : TableCellValue Number} (hleft : left ≠ empty)
    (hright : right ≠ empty) (h : left.isTextual ∨ right.isTextual) :
    left.cmpForSort right = cmp left.filterText right.filterText := by
  cases left with
  | empty => exact absurd rfl hleft
  | text _ => cases right <;> first | rfl | exact absurd rfl hright
  | number _ =>
    cases right with
    | empty => exact absurd rfl hright
    | number _ => exact (h.elim id id).elim
    | text _ | bool _ => rfl
  | bool left =>
    cases right with
    | empty => exact absurd rfl hright
    | text _ | number _ => rfl
    | bool right =>
      have hbools : ∀ left right, cmp left right = cmp (boolText left) (boolText right) := by
        decide
      exact hbools left right

variable {first second third : TableCellValue Number}

/-- Values at most one of which is a number are compared by their texts. -/
theorem not_circles_of_isTextual (hfirst : first ≠ empty) (hsecond : second.isTextual)
    (hthird : third.isTextual) : ¬Circles cmpForSort first second third := by
  intro hround
  have hsecond' := ne_empty_of_isTextual hsecond
  have hthird' := ne_empty_of_isTextual hthird
  rw [Circles, cmpForSort_of_isTextual hfirst hsecond' (.inr hsecond),
    cmpForSort_of_isTextual hsecond' hthird' (.inl hsecond),
    cmpForSort_of_isTextual hthird' hfirst (.inl hthird)] at hround
  exact not_circles_cmp filterText hround

theorem straddles_of_circles {low high : Number} (htextual : third.isTextual)
    (hround : Circles cmpForSort (number low) (number high) third) :
    Straddles (number low) (number high) third := by
  have hthird := ne_empty_of_isTextual htextual
  have hhigh : ∀ number : Number, (TableCellValue.number number).cmpForSort third =
      cmp (filterText (.number number)) third.filterText :=
    fun number => cmpForSort_of_isTextual (number_ne_empty _) hthird (.inr htextual)
  have hlow := cmpForSort_of_isTextual hthird (number_ne_empty low) (.inl htextual)
  obtain ⟨hle, habove, hbelow, htie⟩ := hround
  rw [hhigh, isLE_cmp_iff] at habove
  rw [hlow, isLE_cmp_iff] at hbelow
  refine ⟨low, rfl, high, rfl, ?_, htextual, habove, hbelow⟩
  apply lt_of_le_of_ne (isLE_cmp_iff.mp hle)
  rintro rfl
  -- of one number and a text of the same characters, all comparisons are ties
  have htext := le_antisymm hbelow habove
  rw [hhigh, hlow, htext] at htie
  exact htie ⟨cmp_self_eq_eq _, cmp_self_eq_eq _, cmp_self_eq_eq _⟩

theorem cmpForSort_of_straddles (h : first.Straddles second third) :
    first.cmpForSort second = .lt := by
  obtain ⟨low, hlow, high, hhigh, hlt, -⟩ := h
  cases first with
  | number first =>
    cases second with
    | number second =>
      obtain rfl := Option.some.inj hlow
      obtain rfl := Option.some.inj hhigh
      exact (cmp_eq_lt_iff _ _).mpr hlt
    | empty | text _ | bool _ => cases hhigh
  | empty | text _ | bool _ => cases hlow

theorem circles_of_straddles (h : first.Straddles second third) :
    Circles cmpForSort first second third := by
  have hlt := cmpForSort_of_straddles h
  obtain ⟨low, hlow, high, hhigh, -, htextual, habove, hbelow⟩ := h
  have hthird := ne_empty_of_isTextual htextual
  have hfirst : first ≠ empty := by
    rintro rfl
    cases hlow
  have hsecond : second ≠ empty := by
    rintro rfl
    cases hhigh
  rw [Circles, hlt, cmpForSort_of_isTextual hsecond hthird (.inr htextual),
    cmpForSort_of_isTextual hthird hfirst (.inl htextual), isLE_cmp_iff,
    isLE_cmp_iff]
  refine ⟨rfl, habove, hbelow, ?_⟩
  rintro ⟨heq, -⟩
  cases heq

/-- Three values circle exactly when they straddle, whichever of them is given first. -/
theorem circles_cmpForSort_iff : Circles cmpForSort first second third ↔
    first.Straddles second third ∨ second.Straddles third first ∨ third.Straddles first second := by
  constructor
  · intro hround
    have hne : ∀ {first second third : TableCellValue Number},
        Circles cmpForSort first second third → first ≠ empty := by
      rintro first second third ⟨hle, hle', hle'', htie⟩ rfl
      obtain rfl := isLE_empty_iff.mp hle''
      obtain rfl := isLE_empty_iff.mp hle'
      exact htie ⟨rfl, rfl, rfl⟩
    have hfirst := hne hround
    have hsecond := hne hround.rotate
    have hthird := hne hround.rotate.rotate
    rcases cases_of_ne_empty hfirst with ⟨one, rfl⟩ | hone <;>
      rcases cases_of_ne_empty hsecond with ⟨two, rfl⟩ | htwo <;>
        rcases cases_of_ne_empty hthird with ⟨three, rfl⟩ | hthree
    · exact absurd hround (not_circles_cmp id)
    · exact .inl (straddles_of_circles hthree hround)
    · exact .inr (.inr (straddles_of_circles htwo hround.rotate.rotate))
    · exact absurd hround (not_circles_of_isTextual hfirst htwo hthree)
    · exact .inr (.inl (straddles_of_circles hone hround.rotate))
    · exact absurd hround.rotate (not_circles_of_isTextual hsecond hthree hone)
    · exact absurd hround.rotate.rotate (not_circles_of_isTextual hthird hone htwo)
    · exact absurd hround (not_circles_of_isTextual hfirst htwo hthree)
  · rintro (h | h | h)
    · exact circles_of_straddles h
    · exact (circles_of_straddles h).rotate.rotate
    · exact (circles_of_straddles h).rotate

end TableCellValue

end OpenGpui.UiCore
