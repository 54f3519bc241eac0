/-
The row-model pipeline of a table: the source tree and the rows resolved from it, filtered,
grouped, sorted, expanded and paginated.  The sort of the standard library is a parameter,
known by what it promises; aggregate cells are what the caller's aggregations make of a
group's rows.
-/
import OpenGpui.Library.Forest
import OpenGpui.Library.KeyedList
import OpenGpui.Library.Primitives
import OpenGpui.UiCore.TableCells

namespace OpenGpui.UiCore

inductive TableRowChildrenLoadState where
  | idle
  | loading (message : String)
  | failed (message : String)
deriving DecidableEq

/-- A source row without its children; the source rows of a table are a forest of these. -/
structure TableRow (Number : Type) where
  id : TableRowId
  instanceId : Option TableRowInstanceId
  cells : KeyMap TableColumnId (TableCellValue Number)
  expandable : Bool
  childrenLoadState : TableRowChildrenLoadState

def TableRow.new {Number : Type} (id : TableRowId) : TableRow Number where
  id
  instanceId := none
  cells := ∅
  expandable := false
  childrenLoadState := .idle

def TableRow.withCell {Number : Type} (row : TableRow Number) (column : TableColumnId)
    (value : TableCellValue Number) : TableRow Number :=
  { row with cells := row.cells.insert column value }

/-- Where a source row stands in the source tree. -/
structure TableTreeRow where
  depth : Nat
  parentIdentity : Option TableRowIdentity
  hasChildren : Bool
  canExpand : Bool
  expanded : Bool
  descendantCount : Nat
  loadedChildCount : Nat
  childrenLoadState : TableRowChildrenLoadState

structure TableGroupRow (Number : Type) where
  groupingColumn : TableColumnId
  groupingValue : TableCellValue Number
  depth : Nat
  parentIdentity : Option TableRowIdentity
  firstLeafIdentity : TableRowIdentity
  leafRowCount : Nat

inductive TableResolvedRowKind (Number : Type) where
  | leaf
  | group (group : TableGroupRow Number)

/-- A row of a model, with its place. -/
structure TableResolvedRow (Number : Type) where
  identity : TableRowIdentity
  cells : KeyMap TableColumnId (TableCellValue Number)
  source : Option (TableRow Number)
  sourceIndex : Option Nat
  selected : Bool
  kind : TableResolvedRowKind Number
  tree : Option TableTreeRow
  depth : Nat
  parentIdentity : Option TableRowIdentity

variable {Number : Type}

namespace TableResolvedRow

def fromRow (row : TableRow Number) (identity : TableRowIdentity) (sourceIndex : Nat)
    (selected : Bool) (tree : Option TableTreeRow) : TableResolvedRow Number where
  identity := identity
  cells := row.cells
  source := some row
  sourceIndex := some sourceIndex
  selected := selected
  kind := .leaf
  tree := tree
  depth := (tree.map TableTreeRow.depth).getD 0
  parentIdentity := tree.bind TableTreeRow.parentIdentity

def fromGroup (identity : TableRowIdentity) (group : TableGroupRow Number)
    (aggregateCells : KeyMap TableColumnId (TableCellValue Number)) :
    TableResolvedRow Number where
  identity := identity
  cells := aggregateCells.insert group.groupingColumn group.groupingValue
  source := none
  sourceIndex := none
  selected := false
  kind := .group group
  tree := none
  depth := group.depth
  parentIdentity := group.parentIdentity

variable (row : TableResolvedRow Number)

def withParent (parentIdentity : TableRowIdentity) (depth : Nat) : TableResolvedRow Number :=
  { row with parentIdentity := some parentIdentity, depth }

def isLeaf : Bool :=
  match row.kind with
  | .leaf => true
  | .group _ => false

def cell (column : TableColumnId) : Option (TableCellValue Number) := row.cells[column]?

end TableResolvedRow

abbrev TableRowNodes (Number : Type) := Forest (TableResolvedRow Number)

variable (rows : Forest (TableRow Number))

def countTableRows : Nat := rows.flatten.length

def TableRow.canExpand (row : TableRow Number) (children : Forest (TableRow Number)) : Bool :=
  row.expandable || !children.trees.isEmpty || row.childrenLoadState != .idle

/-- The identities of all source rows in preorder.  An instance id counts when no other
row of the business id has it, and the business id alone when no other row has it. -/
def sourceRowIdentities (sourceSnapshot : Nat) :
    List TableSourceRowIdentity :=
  let all := rows.flatten
  let idCount := fun (id : TableRowId) => all.countP fun row => row.id == id
  let instanceCount := fun (id : TableRowId) (instanceId : TableRowInstanceId) =>
    all.countP fun row => row.id == id && row.instanceId == some instanceId
  all.zipIdx.map fun (row, index) =>
    let occurrence := (all.take index).countP fun earlier => earlier.id == row.id
    let byId : TableSourceInstanceIdentity :=
      if idCount row.id = 1 then .unique else .occurrence sourceSnapshot occurrence
    { rowId := row.id
      instanceIdentity :=
        match row.instanceId with
        | some instanceId =>
          if instanceCount row.id instanceId = 1 then .explicit instanceId else byId
        | none => byId }

/-- Which rows show their children. -/
inductive TableExpansionState where
  | all
  | rows (expandedRows : List TableRowIdentity)

def TableExpansionState.isExpanded (expansion : TableExpansionState)
    (identity : TableRowIdentity) : Bool :=
  match expansion with
  | .all => true
  | .rows expandedRows => expandedRows.contains identity

/-- What resolving source rows reads of the table. -/
structure SourceRowContext where
  identities : List TableSourceRowIdentity
  selectedRows : List TableSourceRowIdentity
  propagateSelectedDescendants : Bool
  expansion : TableExpansionState
  includeChildren : Bool

/-- The identity at a place in the preorder; the source indexes, and would panic beyond
the last row. -/
def SourceRowContext.identityAt (context : SourceRowContext) (sourceIndex : Nat) :
    TableSourceRowIdentity :=
  context.identities.getD sourceIndex ⟨"", .unique⟩

/-- The nodes of source rows, and the preorder index after all of them. -/
def buildSourceRowNodes (context : SourceRowContext) :
    Forest (TableRow Number) → (ancestorSelected : Bool) → (sourceIndex : Nat) →
      (parentIdentity : Option TableRowIdentity) → (depth : Nat) → TableRowNodes Number × Nat
  | .nil, _, sourceIndex, _, _ => (.nil, sourceIndex)
  | .cons row children rest, ancestorSelected, sourceIndex, parentIdentity, depth =>
    let source := context.identityAt sourceIndex
    let identity := TableRowIdentity.source source
    let canExpand := row.canExpand children
    let selected := context.selectedRows.contains source ||
      (context.propagateSelectedDescendants && ancestorSelected)
    let below :=
      if context.includeChildren then
        buildSourceRowNodes context children selected (sourceIndex + 1) (some identity) (depth + 1)
      else (.nil, sourceIndex + 1 + countTableRows children)
    let tree : Option TableTreeRow :=
      if context.includeChildren && (parentIdentity.isSome || canExpand) then some
        { depth, parentIdentity, hasChildren := !children.trees.isEmpty, canExpand,
          expanded := context.expansion.isExpanded identity
          descendantCount := countTableRows children
          loadedChildCount := children.trees.length
          childrenLoadState := row.childrenLoadState }
      else none
    let resolved := TableResolvedRow.fromRow row identity sourceIndex selected tree
    let after := buildSourceRowNodes context rest ancestorSelected below.2 parentIdentity depth
    (.cons resolved below.1 after.1, after.2)

section Filtering

variable [TableScalars Number] (nodes : TableRowNodes Number)

/-- A node passes with its children when its source row does; rows without a source do
not. -/
def filterSourceRowNodes (filters : List (TableFilter Number)) : TableRowNodes Number :=
  if filters.isEmpty then nodes
  else nodes.prune fun row => row.source.any fun source =>
    filters.all fun filter => filter.matchesCells source.cells

def filterSourceRowNodesByGlobalQuery
    (globalFilter : Option String) (globalFilterableColumns : List TableColumnId) :
    TableRowNodes Number :=
  if globalFilter.all String.isEmpty then nodes
  else nodes.prune fun row => row.source.any fun source =>
    cellsMatchGlobalFilter source.cells globalFilter globalFilterableColumns

end Filtering

variable [TableScalars Number]

/-- The rows of each group value, the values in the order they are first seen.  A group
is known by the identity of its value and keeps the value it was first seen with. -/
def groupBuckets (column : TableColumnId) (rows : List (TableResolvedRow Number)) :
    List (TableCellValue Number × List (TableResolvedRow Number)) :=
  Buckets.collect TableGroupValueIdentity.fromCellValue
    (fun row => (row.cell column).getD .empty) rows

/-- The forest of groups, one level for each grouping column, over the rows as leaves. -/
def buildGroupNodes
    (aggregateCells : List (TableResolvedRow Number) →
      KeyMap TableColumnId (TableCellValue Number)) :
    (grouping : List TableColumnId) → (rows : List (TableResolvedRow Number)) →
      (depth : Nat) → (parentGroupIdentity : TableGroupRowIdentity) →
        (inheritedParentIdentity : Option TableRowIdentity) → TableRowNodes Number
  | [], rows, depth, _, inheritedParentIdentity =>
    .ofTrees (rows.map fun row =>
      (match inheritedParentIdentity with
        | some parentIdentity => row.withParent parentIdentity depth
        | none => row, .nil))
  | column :: grouping, rows, depth, parentGroupIdentity, inheritedParentIdentity =>
    .ofTrees ((groupBuckets column rows).map fun bucket =>
      let groupIdentity := parentGroupIdentity ++
        [⟨column, TableGroupValueIdentity.fromCellValue bucket.1⟩]
      let identity := TableRowIdentity.group groupIdentity
      let group : TableGroupRow Number :=
        { groupingColumn := column, groupingValue := bucket.1, depth
          parentIdentity := inheritedParentIdentity
          firstLeafIdentity := (bucket.2.head?.map TableResolvedRow.identity).getD identity
          leafRowCount := bucket.2.length }
      (.fromGroup identity group (aggregateCells bucket.2),
        buildGroupNodes aggregateCells grouping bucket.2 (depth + 1) groupIdentity (some identity)))

inductive TableStageMode where
  | client
  | manual
deriving DecidableEq

inductive TableSortDirection where
  | ascending
  | descending

/-- A column and a direction. -/
structure TableSort where
  column : TableColumnId
  direction : TableSortDirection

structure TablePagination where
  pageIndex : Nat
  pageSize : Nat
  mode : TableStageMode

/-- The largest page size, which stands for no pagination. -/
abbrev usizeMax : Nat := U64.MAX

def TablePagination.disabled : TablePagination := ⟨0, usizeMax, .client⟩

def TablePagination.apply {α : Type} (pagination : TablePagination) (rows : List α) : List α :=
  if pagination.mode = .manual ∨ pagination.pageSize = usizeMax then rows
  else if pagination.pageSize = 0 then []
  else
    let start := min (pagination.pageIndex * pagination.pageSize) usizeMax
    (rows.drop start).take pagination.pageSize

/-- The settings a table is resolved with. -/
structure TableState (Number : Type) [TableScalars Number] where
  rows : Forest (TableRow Number)
  sourceSnapshot : Nat
  globalFilterableColumns : List TableColumnId
  sorting : List TableSort
  sortingMode : TableStageMode
  filters : List (TableFilter Number)
  globalFilter : Option String
  filteringMode : TableStageMode
  grouping : List TableColumnId
  aggregateCells : List (TableResolvedRow Number) → KeyMap TableColumnId (TableCellValue Number)
  expansion : TableExpansionState
  expansionMode : TableStageMode
  propagatesDescendantSelection : Bool
  selectedRows : List TableSourceRowIdentity
  pagination : TablePagination

/-- The rows of every stage up to pagination. -/
structure TableRowModels (Number : Type) where
  core : List (TableResolvedRow Number)
  filtered : List (TableResolvedRow Number)
  grouped : List (TableResolvedRow Number)
  sorted : List (TableResolvedRow Number)
  expanded : List (TableResolvedRow Number)
  paginated : List (TableResolvedRow Number)

section Comparing

variable {Number : Type} [TableScalars Number]

def TableSort.compare (sort : TableSort) (left right : TableResolvedRow Number) : Ordering :=
  let leftValue := (left.cell sort.column).getD .empty
  let rightValue := (right.cell sort.column).getD .empty
  match sort.direction with
  | .ascending => leftValue.cmpForSort rightValue
  | .descending => (leftValue.cmpForSort rightValue).swap

def compareIdentities (left right : TableResolvedRow Number) : Ordering :=
  cmp left.identity.tieKey right.identity.tieKey

/-- The first sort that tells the rows apart decides, and their identities if none does. -/
def compareBySorts : List TableSort → TableResolvedRow Number → TableResolvedRow Number →
    Ordering
  | [], left, right => compareIdentities left right
  | sort :: sorting, left, right =>
    (sort.compare left right).then (compareBySorts sorting left right)

/-- Without sorts all rows tie. -/
def compareRows (sorting : List TableSort) (left right : TableResolvedRow Number) : Ordering :=
  if sorting.isEmpty then .eq else compareBySorts sorting left right

end Comparing

namespace TableState

section

variable {Number : Type} [TableScalars Number]

/-- A table of rows with nothing set up: no sort, filter or group, every row closed, and
all rows on every page. -/
def new (rows : Forest (TableRow Number)) (sourceSnapshot : Nat) : TableState Number where
  rows
  sourceSnapshot
  globalFilterableColumns := []
  sorting := []
  sortingMode := .client
  filters := []
  globalFilter := none
  filteringMode := .client
  grouping := []
  aggregateCells _ := ∅
  expansion := .rows []
  expansionMode := .client
  propagatesDescendantSelection := false
  selectedRows := []
  pagination := .disabled

end

variable {Number : Type} [TableScalars Number]
variable (sort : SliceSort (TableResolvedRow Number × TableRowNodes Number))

variable (state : TableState Number)

variable (nodes : TableRowNodes Number)

/-- The children of every node are sorted before the nodes of its own level. -/
def sortNodes : TableRowNodes Number :=
  nodes.sortLevels fun level =>
    if state.sorting.isEmpty then level
    else sort.sortBy (fun left right => compareRows state.sorting left.1 right.1) level

def groupNodes (rows : List (TableResolvedRow Number)) : TableRowNodes Number :=
  buildGroupNodes state.aggregateCells state.grouping rows 0 [] none

def expandNodes : List (TableResolvedRow Number) :=
  if state.grouping.isEmpty && state.expansionMode == .manual then nodes.flatten
  else nodes.expand fun row => state.expansion.isExpanded row.identity

/-- With a grouping the children of source rows stay out of the table. -/
def sourceContext : SourceRowContext where
  identities := sourceRowIdentities state.rows state.sourceSnapshot
  selectedRows := state.selectedRows
  propagateSelectedDescendants := state.propagatesDescendantSelection
  expansion := state.expansion
  includeChildren := state.grouping.isEmpty

def sourceNodes : TableRowNodes Number :=
  (buildSourceRowNodes state.sourceContext state.rows false 0 none 0).1

def filteredNodes : TableRowNodes Number :=
  if state.filteringMode = .manual then state.sourceNodes
  else filterSourceRowNodesByGlobalQuery
    (filterSourceRowNodes state.sourceNodes state.filters) state.globalFilter
      state.globalFilterableColumns

def groupedNodes : TableRowNodes Number :=
  if state.grouping.isEmpty then state.filteredNodes
  else state.groupNodes state.filteredNodes.flatten

def sortedNodes : TableRowNodes Number :=
  if state.sortingMode = .manual then state.groupedNodes
  else state.sortNodes sort state.groupedNodes

def resolve : TableRowModels Number where
  core := state.sourceNodes.flatten
  filtered := state.filteredNodes.flatten
  grouped := state.groupedNodes.flatten
  sorted := (state.sortedNodes sort).flatten
  expanded := state.expandNodes (state.sortedNodes sort)
  paginated := state.pagination.apply (state.expandNodes (state.sortedNodes sort))

end TableState

end OpenGpui.UiCore
