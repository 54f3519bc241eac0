/-
Pinned rows: targets name rows by identity or by business id, and the rows found for
them leave the page for the regions above and below it.
-/
import OpenGpui.Library.FirstSeen
import OpenGpui.UiCore.TableIdentities

namespace OpenGpui.UiCore

open List IndexMap Taken

variable {Number : Type}

def TableRowIdentity.sourceRowId : TableRowIdentity → Option TableRowId
  | source identity => some identity.rowId
  | group _ => none

def TableResolvedRow.sourceRowId (row : TableResolvedRow Number) : Option TableRowId :=
  row.identity.sourceRowId

inductive TableRowModelStage where
  | core
  | filtered
  | grouped
  | sorted
  | expanded
  | paginated
  | final

/-- A row of the model, or one of an earlier stage that is only looked up. -/
inductive TableRowLookupEntry (Number : Type) where
  | materialized (index : Nat)
  | retained (row : TableResolvedRow Number)

def TableRowLookupEntry.materializedIndex : TableRowLookupEntry Number → Option Nat
  | materialized index => some index
  | retained _ => none

/-- The lookup is by identity only, so the order of its keys is left open. -/
structure TableRowModel (Number : Type) where
  stage : TableRowModelStage
  rows : List (TableResolvedRow Number)
  rowLookup : IndexMap TableRowIdentity (TableRowLookupEntry Number)

namespace TableRowModel

/-- Files every row under its identity; of rows that share one, the last is found. -/
def fileRows (rows : List (TableResolvedRow Number))
    (rowLookup : IndexMap TableRowIdentity (TableRowLookupEntry Number)) :
    IndexMap TableRowIdentity (TableRowLookupEntry Number) :=
  rows.zipIdx.foldl (fun rowLookup entry =>
    rowLookup.insert entry.1.identity (.materialized entry.2)) rowLookup

def new (stage : TableRowModelStage) (rows : List (TableResolvedRow Number)) :
    TableRowModel Number where
  stage
  rows
  rowLookup := fileRows rows .empty

def newWithLookup (stage : TableRowModelStage) (rows : List (TableResolvedRow Number))
    (lookupRows : List (TableResolvedRow Number)) : TableRowModel Number where
  stage
  rows
  rowLookup := fileRows rows (lookupRows.foldl (fun rowLookup row =>
    rowLookup.insert row.identity (.retained row)) .empty)

def materializedRow (model : TableRowModel Number) (identity : TableRowIdentity) :
    Option (TableResolvedRow Number) := do
  let entry ← model.rowLookup.get identity
  let index ← entry.materializedIndex
  model.rows[index]?

end TableRowModel

inductive TableRowPinningPolicy where
  | keepPinnedRows
  | pageOnly

inductive TableRowPinTarget where
  | exact (identity : TableRowIdentity)
  | allSourceRows (rowId : TableRowId)
deriving DecidableEq

structure TableRowPinning where
  top : List TableRowPinTarget
  bottom : List TableRowPinTarget

namespace TableRowPinning

variable (pinning : TableRowPinning)

def isEmpty (pinning : TableRowPinning) : Bool := pinning.top.isEmpty && pinning.bottom.isEmpty

/-- The targets of both regions, those of the top first. -/
def targets : List TableRowPinTarget := pinning.top ++ pinning.bottom

end TableRowPinning

structure TableRowPinLookup (Number : Type) where
  model : TableRowModel Number
  sourceRows : KeyMap TableRowId (List (TableResolvedRow Number))

namespace TableRowPinLookup

/-- A row joins the rows of its business id when that is asked for. -/
def recordRow (sourceRows : KeyMap TableRowId (List (TableResolvedRow Number)))
    (row : TableResolvedRow Number) : KeyMap TableRowId (List (TableResolvedRow Number)) :=
  match row.sourceRowId with
  | some rowId => sourceRows.modify rowId (· ++ [row])
  | none => sourceRows

/-- The business ids asked for, without rows as yet. -/
def requested (targets : List TableRowPinTarget) :
    KeyMap TableRowId (List (TableResolvedRow Number)) :=
  targets.foldl (fun sourceRows target =>
    match target with
    | .exact _ => sourceRows
    | .allSourceRows rowId => sourceRows.insert rowId []) ∅

def new (model : TableRowModel Number) (pinning : TableRowPinning) : TableRowPinLookup Number where
  model
  sourceRows :=
    let sourceRows := requested pinning.targets
    if sourceRows.isEmpty then sourceRows else model.rows.foldl recordRow sourceRows

end TableRowPinLookup

def resolveRowPinTargets (targets : List TableRowPinTarget)
    (lookup : TableRowPinLookup Number) (seen : Finset TableRowIdentity) :
    List (TableResolvedRow Number) × Finset TableRowIdentity :=
  targets.foldl (fun taken target =>
    match target with
    | .exact identity =>
      match lookup.model.materializedRow identity with
      | some row => push TableResolvedRow.identity taken row
      | none => taken
    | .allSourceRows rowId =>
      match lookup.sourceRows[rowId]? with
      | some rows => pushAll TableResolvedRow.identity taken rows
      | none => taken) ([], seen)

inductive TableRowRegion where
  | top
  | center
  | bottom

structure TableRowRegions (Number : Type) where
  top : List (TableResolvedRow Number)
  center : List (TableResolvedRow Number)
  bottom : List (TableResolvedRow Number)

namespace TableRowRegions

def fromModels (expandedModel paginatedModel : TableRowModel Number)
    (pinning : TableRowPinning) (policy : TableRowPinningPolicy) :
    TableRowRegions Number :=
  if pinning.isEmpty then ⟨[], paginatedModel.rows, []⟩
  else
    let lookupModel :=
      match policy with
      | .keepPinnedRows => expandedModel
      | .pageOnly => paginatedModel
    let lookup := TableRowPinLookup.new lookupModel pinning
    let top := resolveRowPinTargets pinning.top lookup ∅
    let bottom := resolveRowPinTargets pinning.bottom lookup top.2
    { top := top.1
      center := paginatedModel.rows.filter fun row => row.identity ∉ bottom.2
      bottom := bottom.1 }

def region (regions : TableRowRegions Number) :
    TableRowRegion → List (TableResolvedRow Number)
  | .top => regions.top
  | .center => regions.center
  | .bottom => regions.bottom

def flattened (regions : TableRowRegions Number) : List (TableResolvedRow Number) :=
  regions.top ++ regions.center ++ regions.bottom

end TableRowRegions

section Lookups

variable {rowLookup : IndexMap TableRowIdentity (TableRowLookupEntry Number)}

/-- Entries that are rows of the model lead to rows with the identity looked up, and every
row of the model is found under its identity. -/
structure TableRowModel.Files (rows : List (TableResolvedRow Number))
    (rowLookup : IndexMap TableRowIdentity (TableRowLookupEntry Number)) : Prop where
  sound : ∀ identity index, rowLookup.get identity = some (.materialized index) →
    ∃ row, rows[index]? = some row ∧ row.identity = identity
  complete : ∀ row ∈ rows, ∃ index, rowLookup.get row.identity = some (.materialized index)

theorem TableRowModel.files_fileRows (rows : List (TableResolvedRow Number))
    (hretained : ∀ identity index, rowLookup.get identity ≠ some (.materialized index)) :
    Files rows (fileRows rows rowLookup) := by
  induction rows using List.reverseRecOn with
  | nil =>
    constructor
    · intro identity index hget
      exact absurd hget (hretained identity index)
    · intro row hrow
      cases hrow
  | append_singleton rows row ih =>
    have hlast : fileRows (rows ++ [row]) rowLookup =
        (fileRows rows rowLookup).insert row.identity (.materialized rows.length) := by
      rw [fileRows, zipIdx_append, foldl_append, Nat.zero_add]
      rfl
    rw [hlast]
    constructor
    · intro identity index hget
      rw [get_insert] at hget
      by_cases hsame : row.identity = identity
      · rw [if_pos hsame, Option.some.injEq, TableRowLookupEntry.materialized.injEq] at hget
        refine ⟨row, ?_, hsame⟩
        rw [← hget, getElem?_append_right (le_refl _), Nat.sub_self]
        rfl
      · rw [if_neg hsame] at hget
        obtain ⟨found, hfound, hidentity⟩ := ih.sound identity index hget
        refine ⟨found, ?_, hidentity⟩
        rw [List.getElem?_append_left (List.getElem?_eq_some_iff.mp hfound).1, hfound]
    · intro other hother
      rw [get_insert]
      by_cases hsame : row.identity = other.identity
      · exact ⟨rows.length, if_pos hsame⟩
      · rw [if_neg hsame]
        rcases mem_append.mp hother with hold | hnew
        · exact ih.complete other hold
        · rw [mem_singleton.mp hnew] at hsame
          exact absurd rfl hsame

namespace TableRowModel

def Filed (model : TableRowModel Number) : Prop := Files model.rows model.rowLookup

theorem filed_new (stage : TableRowModelStage) (rows : List (TableResolvedRow Number)) :
    (new stage rows).Filed := by
  apply files_fileRows
  intro identity index hget
  cases hget

theorem filed_newWithLookup (stage : TableRowModelStage)
    (rows lookupRows : List (TableResolvedRow Number)) :
    (newWithLookup stage rows lookupRows).Filed := by
  apply files_fileRows
  intro identity index
  -- the rows looked up in are retained, each in its turn
  induction lookupRows using List.reverseRecOn with
  | nil => exact fun hget => by cases hget
  | append_singleton lookupRows row ih =>
    rw [foldl_append, foldl_cons, foldl_nil, get_insert]
    by_cases hsame : row.identity = identity
    · rw [if_pos hsame]
      exact fun hget => by cases hget
    · rw [if_neg hsame]
      exact ih

variable {model : TableRowModel Number} {row : TableResolvedRow Number}

theorem mem_of_materializedRow (hfiled : model.Filed) {identity : TableRowIdentity}
    (hrow : model.materializedRow identity = some row) :
    row ∈ model.rows ∧ row.identity = identity := by
  obtain ⟨entry, hget, hindex⟩ := Option.bind_eq_some_iff.mp hrow
  cases entry with
  | retained _ => cases hindex
  | materialized index =>
    have hfound : model.rows[index]? = some row := hindex
    obtain ⟨found, hsame, hidentity⟩ := hfiled.sound identity index hget
    rw [hfound, Option.some.injEq] at hsame
    rw [← hsame] at hidentity
    exact ⟨mem_of_getElem? hfound, hidentity⟩

theorem materializedRow_identity (hfiled : model.Filed)
    (hdistinct : (identitiesOf model.rows).Nodup)
    (hrow : row ∈ model.rows) : model.materializedRow row.identity = some row := by
  obtain ⟨index, hget⟩ := hfiled.complete row hrow
  obtain ⟨found, hfound, hidentity⟩ := hfiled.sound _ _ hget
  have hmaterialized : model.materializedRow row.identity = some found := by
    rw [materializedRow, hget]
    exact hfound
  rw [hmaterialized, inj_on_of_nodup_map hdistinct (mem_of_getElem? hfound) hrow hidentity]

end TableRowModel

end Lookups

/-- The target names the row, by its identity or by the business id it shares. -/
def TableRowPinTarget.Designates (target : TableRowPinTarget)
    (row : TableResolvedRow Number) : Prop :=
  match target with
  | .exact identity => row.identity = identity
  | .allSourceRows rowId => row.sourceRowId = some rowId

/-- Some target of the list names the row. -/
def Designated (targets : List TableRowPinTarget) (row : TableResolvedRow Number) : Prop :=
  ∃ target ∈ targets, target.Designates row

namespace TableRowPinLookup

theorem get_requested (targets : List TableRowPinTarget) (rowId : TableRowId) :
    (requested targets : KeyMap TableRowId (List (TableResolvedRow Number)))[rowId]? =
      if .allSourceRows rowId ∈ targets then some [] else none := by
  induction targets using List.reverseRecOn with
  | nil => simp [requested]
  | append_singleton targets target ih =>
    have hlast : (requested (targets ++ [target]) :
        KeyMap TableRowId (List (TableResolvedRow Number))) = match target with
          | .exact _ => requested targets
          | .allSourceRows rowId => (requested targets).insert rowId [] := by
      rw [requested, foldl_append]
      rfl
    rw [hlast]
    cases target with
    | exact identity => simp [ih]
    | allSourceRows asked =>
      rw [KeyMap.get_insert]
      by_cases hsame : asked = rowId
      · simp [hsame]
      · have hne : ¬rowId = asked := fun h => hsame h.symm
        simp [hsame, hne, ih]

theorem get_foldl_recordRow (rows : List (TableResolvedRow Number))
    (sourceRows : KeyMap TableRowId (List (TableResolvedRow Number))) (rowId : TableRowId) :
    (rows.foldl recordRow sourceRows)[rowId]? =
      sourceRows[rowId]?.map (· ++ rows.filter fun row => row.sourceRowId = some rowId) := by
  induction rows generalizing sourceRows with
  | nil => simp
  | cons row rest ih =>
    rw [foldl_cons, ih, recordRow]
    cases hid : row.sourceRowId with
    | none => simp [hid]
    | some ownId =>
      simp only [KeyMap.get_modify]
      by_cases hsame : ownId = rowId
      · simp [hsame, hid, Option.map_map, Function.comp_def]
      · simp [hsame, hid]

/-- Of a business id that is asked for, all rows of the model are kept, in their order. -/
theorem get_sourceRows (model : TableRowModel Number) (pinning : TableRowPinning)
    (rowId : TableRowId) :
    (new model pinning).sourceRows[rowId]? =
      if .allSourceRows rowId ∈ pinning.targets then
        some (model.rows.filter fun row => row.sourceRowId = some rowId)
      else none := by
  simp only [new]
  by_cases hempty :
      (requested pinning.targets : KeyMap TableRowId (List (TableResolvedRow Number))).isEmpty
        = true
  · have hget := @get_requested Number pinning.targets rowId
    have hnone : (requested pinning.targets :
        KeyMap TableRowId (List (TableResolvedRow Number)))[rowId]? = none := by
      rw [Std.ExtTreeMap.isEmpty_iff.mp hempty]
      exact Std.ExtTreeMap.getElem?_empty
    rw [if_pos hempty, hnone]
    by_cases hasked : .allSourceRows rowId ∈ pinning.targets
    · rw [if_pos hasked, hnone] at hget
      cases hget
    · rw [if_neg hasked]
  · rw [if_neg hempty, get_foldl_recordRow, get_requested]
    by_cases hasked : .allSourceRows rowId ∈ pinning.targets
    · simp [hasked]
    · simp [hasked]

/-- The rows that a target brings forward, in the order they are pushed. -/
def rowsOf (lookup : TableRowPinLookup Number) :
    TableRowPinTarget → List (TableResolvedRow Number)
  | .exact identity => (lookup.model.materializedRow identity).toList
  | .allSourceRows rowId => lookup.sourceRows[rowId]?.getD []

variable {model : TableRowModel Number} {pinning : TableRowPinning}

theorem mem_rowsOf_iff (hfiled : model.Filed) (hdistinct : (identitiesOf model.rows).Nodup)
    {target : TableRowPinTarget} (htarget : target ∈ pinning.targets)
    {row : TableResolvedRow Number} :
    row ∈ (new model pinning).rowsOf target ↔ row ∈ model.rows ∧ target.Designates row := by
  cases target with
  | exact identity =>
    rw [rowsOf, Option.mem_toList]
    constructor
    · exact TableRowModel.mem_of_materializedRow hfiled
    · rintro ⟨hrow, hidentity⟩
      have hsame : row.identity = identity := hidentity
      rw [← hsame]
      exact TableRowModel.materializedRow_identity hfiled hdistinct hrow
  | allSourceRows rowId =>
    rw [rowsOf, get_sourceRows, if_pos htarget, Option.getD_some, mem_filter]
    exact and_congr_right fun _ => decide_eq_true_iff

end TableRowPinLookup

/-- The two loops over targets and their rows are one run over all rows brought
forward. -/
theorem resolveRowPinTargets_eq (targets : List TableRowPinTarget)
    (lookup : TableRowPinLookup Number) (seen : Finset TableRowIdentity) :
    resolveRowPinTargets targets lookup seen =
      pushAll TableResolvedRow.identity ([], seen) (targets.flatMap lookup.rowsOf) := by
  rw [pushAll_flatMap, resolveRowPinTargets]
  congr 1
  funext taken target
  cases target with
  | exact identity =>
    dsimp only [TableRowPinLookup.rowsOf]
    cases lookup.model.materializedRow identity with
    | none => rfl
    | some row => rfl
  | allSourceRows rowId =>
    dsimp only [TableRowPinLookup.rowsOf]
    cases lookup.sourceRows[rowId]? with
    | none => rfl
    | some rows => rfl

section Regions

/-- What targets bring forward from a model: each row they name that was not seen before,
once. -/
structure Resolves (model : TableRowModel Number) (targets : List TableRowPinTarget)
    (seen : Finset TableRowIdentity)
    (resolved : List (TableResolvedRow Number) × Finset TableRowIdentity) : Prop where
  distinct : (identitiesOf resolved.1).Nodup
  rows : ∀ row, row ∈ resolved.1 ↔ row ∈ model.rows ∧ Designated targets row ∧ row.identity ∉ seen
  seen : ∀ identity, identity ∈ resolved.2 ↔ identity ∈ seen ∨ identity ∈ identitiesOf resolved.1

theorem mem_of_identity {rows : List (TableResolvedRow Number)}
    (hdistinct : (identitiesOf rows).Nodup) {part : List (TableResolvedRow Number)}
    (hpart : part ⊆ rows) {row : TableResolvedRow Number} (hrow : row ∈ rows)
    (hidentity : row.identity ∈ identitiesOf part) : row ∈ part := by
  obtain ⟨other, hother, hsame⟩ := mem_map.mp hidentity
  have heq := inj_on_of_nodup_map hdistinct (hpart hother) hrow hsame
  rwa [← heq]

variable {model : TableRowModel Number} {pinning : TableRowPinning}

theorem resolves_resolveRowPinTargets (hfiled : model.Filed)
    (hdistinct : (identitiesOf model.rows).Nodup) {targets : List TableRowPinTarget}
    (htargets : targets ⊆ pinning.targets) (seen : Finset TableRowIdentity) :
    Resolves model targets seen
      (resolveRowPinTargets targets (TableRowPinLookup.new model pinning) seen) := by
  obtain ⟨added, hadds, hlist, hkeys⟩ := pushAll_adds TableResolvedRow.identity
    ([], seen) (targets.flatMap (TableRowPinLookup.new model pinning).rowsOf)
  have hpushed : ∀ row, row ∈ targets.flatMap (TableRowPinLookup.new model pinning).rowsOf ↔
      row ∈ model.rows ∧ Designated targets row := by
    intro row
    rw [mem_flatMap]
    constructor
    · rintro ⟨target, htarget, hrow⟩
      rw [TableRowPinLookup.mem_rowsOf_iff hfiled hdistinct (htargets htarget)] at hrow
      exact ⟨hrow.1, target, htarget, hrow.2⟩
    · rintro ⟨hrow, target, htarget, hnamed⟩
      refine ⟨target, htarget, ?_⟩
      rw [TableRowPinLookup.mem_rowsOf_iff hfiled hdistinct (htargets htarget)]
      exact ⟨hrow, hnamed⟩
  rw [resolveRowPinTargets_eq]
  refine ⟨?_, ?_, ?_⟩
  · rw [hlist]
    exact hadds.nodup
  · intro row
    rw [hlist]
    constructor
    · intro hrow
      obtain ⟨hmodel, hnamed⟩ := (hpushed row).mp (hadds.sublist.subset hrow)
      exact ⟨hmodel, hnamed, hadds.unseen row hrow⟩
    · rintro ⟨hmodel, hnamed, hunseen⟩
      have hidentity := (hadds.covers row ((hpushed row).mpr ⟨hmodel, hnamed⟩)).resolve_left hunseen
      apply mem_of_identity hdistinct _ hmodel hidentity
      intro other hother
      exact ((hpushed other).mp (hadds.sublist.subset hother)).1
  · intro identity
    rw [hlist]
    exact hkeys identity

namespace TableRowRegions

/-- What pinning promises of the regions of a page. -/
structure Partitions (regions : TableRowRegions Number)
    (expanded page : List (TableResolvedRow Number)) (pinning : TableRowPinning)
    (policy : TableRowPinningPolicy) : Prop where
  /-- No identity is shown in two regions, or twice in one. -/
  once : (identitiesOf regions.flattened).Nodup
  covered : ∀ row ∈ page, ∃! region, row ∈ regions.region region
  ordered : regions.center.Sublist page
  outside : ∀ row ∈ regions.flattened, row ∉ page →
    policy = .keepPinnedRows ∧ row ∈ expanded ∧ Designated pinning.targets row

variable {regions : TableRowRegions Number} {row : TableResolvedRow Number}

theorem mem_flattened_iff :
    row ∈ regions.flattened ↔ row ∈ regions.top ∨ row ∈ regions.center ∨ row ∈ regions.bottom := by
  rw [flattened, mem_append, mem_append, or_assoc]

/-- Where no identity is shown twice, no row is in two regions. -/
theorem region_unique (honce : (identitiesOf regions.flattened).Nodup)
    {one two : TableRowRegion} (hone : row ∈ regions.region one)
    (htwo : row ∈ regions.region two) : one = two := by
  rw [flattened, identitiesOf, map_append, map_append, nodup_append, nodup_append] at honce
  obtain ⟨⟨-, -, htopCenter⟩, -, hbottom⟩ := honce
  have hname : ∀ {rows : List (TableResolvedRow Number)}, row ∈ rows →
      row.identity ∈ rows.map TableResolvedRow.identity :=
    fun hrow => mem_map_of_mem hrow
  cases one with
  | top =>
    cases two with
    | top => rfl
    | center => exact (htopCenter _ (hname hone) _ (hname htwo) rfl).elim
    | bottom =>
      exact (hbottom _ (mem_append_left _ (hname hone)) _ (hname htwo) rfl).elim
  | center =>
    cases two with
    | top => exact (htopCenter _ (hname htwo) _ (hname hone) rfl).elim
    | center => rfl
    | bottom =>
      exact (hbottom _ (mem_append_right _ (hname hone)) _ (hname htwo) rfl).elim
  | bottom =>
    cases two with
    | top =>
      exact (hbottom _ (mem_append_left _ (hname htwo)) _ (hname hone) rfl).elim
    | center =>
      exact (hbottom _ (mem_append_right _ (hname htwo)) _ (hname hone) rfl).elim
    | bottom => rfl

/-- The regions when targets are looked up in a given model. -/
def pinnedFrom (lookupModel : TableRowModel Number) (page : List (TableResolvedRow Number))
    (pinning : TableRowPinning) : TableRowRegions Number :=
  let lookup := TableRowPinLookup.new lookupModel pinning
  let top := resolveRowPinTargets pinning.top lookup ∅
  let bottom := resolveRowPinTargets pinning.bottom lookup top.2
  { top := top.1
    center := page.filter fun row => row.identity ∉ bottom.2
    bottom := bottom.1 }

variable {lookupModel : TableRowModel Number} {page : List (TableResolvedRow Number)}

/-- A row of the looked-up model is on top when a target of the top names it, at the
bottom when only one of the bottom does, and in the center when it is on the page and
none does. -/
structure Places (regions : TableRowRegions Number) (lookupModel : TableRowModel Number)
    (page : List (TableResolvedRow Number)) (pinning : TableRowPinning) : Prop where
  distinctTop : (identitiesOf regions.top).Nodup
  distinctBottom : (identitiesOf regions.bottom).Nodup
  top : ∀ row, row ∈ regions.top ↔ row ∈ lookupModel.rows ∧ Designated pinning.top row
  bottom : ∀ row, row ∈ regions.bottom ↔
    row ∈ lookupModel.rows ∧ Designated pinning.bottom row ∧ ¬Designated pinning.top row
  center : regions.center = page.filter fun row =>
    row.identity ∉ identitiesOf regions.top ∧ row.identity ∉ identitiesOf regions.bottom

theorem places_pinnedFrom (hfiled : lookupModel.Filed)
    (hdistinct : (identitiesOf lookupModel.rows).Nodup) :
    (pinnedFrom lookupModel page pinning).Places lookupModel page pinning := by
  have htop := resolves_resolveRowPinTargets hfiled hdistinct
    (subset_append_left pinning.top pinning.bottom) ∅
  have hbottom := resolves_resolveRowPinTargets hfiled hdistinct
    (subset_append_right pinning.top pinning.bottom)
    (resolveRowPinTargets pinning.top (TableRowPinLookup.new lookupModel pinning) ∅).2
  have hmemTop : ∀ row, row ∈ (pinnedFrom lookupModel page pinning).top ↔
      row ∈ lookupModel.rows ∧ Designated pinning.top row := by
    intro row
    refine (htop.rows row).trans (and_congr_right fun _ => and_iff_left ?_)
    exact Finset.notMem_empty _
  have hseenTop : ∀ row ∈ lookupModel.rows, row.identity ∈ (resolveRowPinTargets pinning.top
      (TableRowPinLookup.new lookupModel pinning) ∅).2 ↔ Designated pinning.top row := by
    intro row hrow
    rw [htop.seen, or_iff_right (Finset.notMem_empty _)]
    constructor
    · intro hidentity
      have hin := mem_of_identity hdistinct (fun other hother => ((hmemTop other).mp hother).1)
        hrow hidentity
      exact ((hmemTop row).mp hin).2
    · intro hnamed
      exact mem_map_of_mem ((hmemTop row).mpr ⟨hrow, hnamed⟩)
  refine ⟨htop.distinct, hbottom.distinct, hmemTop, ?_, ?_⟩
  · intro row
    refine (hbottom.rows row).trans (and_congr_right fun hrow => and_congr_right fun _ => ?_)
    rw [hseenTop row hrow]
  · apply filter_congr
    intro row _
    rw [decide_eq_decide, hbottom.seen, htop.seen, or_iff_right (Finset.notMem_empty _), not_or]
    rfl

section

variable (hplaces : regions.Places lookupModel page pinning)

include hplaces

theorem Places.once
    (hpage : (identitiesOf page).Nodup) (hdistinct : (identitiesOf lookupModel.rows).Nodup) :
    (identitiesOf regions.flattened).Nodup := by
  have hcenter : (identitiesOf regions.center).Nodup := by
    rw [hplaces.center]
    exact hpage.sublist (filter_sublist.map _)
  have hapart : ∀ row ∈ regions.center, row.identity ∉ identitiesOf regions.top ∧
      row.identity ∉ identitiesOf regions.bottom := by
    intro row hrow
    rw [hplaces.center, mem_filter, decide_eq_true_iff] at hrow
    exact hrow.2
  rw [flattened, identitiesOf, map_append, map_append, nodup_append, nodup_append]
  refine ⟨⟨hplaces.distinctTop, hcenter, ?_⟩, hplaces.distinctBottom, ?_⟩
  · rintro identity htop _ hmem rfl
    obtain ⟨row, hrow, hidentity⟩ := mem_map.mp hmem
    rw [← hidentity] at htop
    exact (hapart row hrow).1 htop
  · rintro identity hmem _ hbottom rfl
    rcases mem_append.mp hmem with htop | hin
    · obtain ⟨row, hrow, hidentity⟩ := mem_map.mp hbottom
      obtain ⟨hmodel, -, hnot⟩ := (hplaces.bottom row).mp hrow
      rw [← hidentity] at htop
      have hrowTop := mem_of_identity hdistinct
        (fun other hother => ((hplaces.top other).mp hother).1) hmodel htop
      exact hnot ((hplaces.top row).mp hrowTop).2
    · obtain ⟨row, hrow, hidentity⟩ := mem_map.mp hin
      rw [← hidentity] at hbottom
      exact (hapart row hrow).2 hbottom

theorem Places.exists_region
    (hdistinct : (identitiesOf lookupModel.rows).Nodup) (hpage : page ⊆ lookupModel.rows) (hrow :
    row ∈ page) :
    ∃ region, row ∈ regions.region region := by
  by_cases htop : row.identity ∈ identitiesOf regions.top
  · refine ⟨.top, mem_of_identity hdistinct ?_ (hpage hrow) htop⟩
    exact fun other hother => ((hplaces.top other).mp hother).1
  · by_cases hbottom : row.identity ∈ identitiesOf regions.bottom
    · refine ⟨.bottom, mem_of_identity hdistinct ?_ (hpage hrow) hbottom⟩
      exact fun other hother => ((hplaces.bottom other).mp hother).1
    · refine ⟨.center, ?_⟩
      rw [region, hplaces.center, mem_filter, decide_eq_true_iff]
      exact ⟨hrow, htop, hbottom⟩

/-- A row that is shown and not on the page was looked up for a target. -/
theorem Places.designated (hrow : row ∈ regions.flattened) (hpage : row ∉ page) :
    row ∈ lookupModel.rows ∧ Designated pinning.targets row := by
  rcases mem_flattened_iff.mp hrow with htop | hcenter | hbottom
  · obtain ⟨hmodel, target, htarget, hnamed⟩ := (hplaces.top row).mp htop
    exact ⟨hmodel, target, mem_append_left _ htarget, hnamed⟩
  · rw [hplaces.center, mem_filter] at hcenter
    exact absurd hcenter.1 hpage
  · obtain ⟨hmodel, ⟨target, htarget, hnamed⟩, -⟩ := (hplaces.bottom row).mp hbottom
    exact ⟨hmodel, target, mem_append_right _ htarget, hnamed⟩

/-- Where the rows looked up in have distinct identities and the page is some of them. -/
theorem Places.partitions
    {expanded : List (TableResolvedRow Number)} {policy : TableRowPinningPolicy}
    (hdistinct : (identitiesOf lookupModel.rows).Nodup) (hpage : page.Sublist lookupModel.rows)
    (houtside : ∀ row ∈ lookupModel.rows, row ∉ page → policy = .keepPinnedRows ∧ row ∈ expanded) :
    regions.Partitions expanded page pinning policy := by
  have honce := hplaces.once (hdistinct.sublist (hpage.map _)) hdistinct
  refine ⟨honce, ?_, ?_, ?_⟩
  · intro row hrow
    obtain ⟨region, hregion⟩ := hplaces.exists_region hdistinct hpage.subset hrow
    refine ⟨region, hregion, ?_⟩
    intro other hother
    exact region_unique honce hother hregion
  · rw [hplaces.center]
    exact filter_sublist
  · intro row hrow hnot
    obtain ⟨hmodel, hnamed⟩ := hplaces.designated hrow hnot
    obtain ⟨hpolicy, hexpanded⟩ := houtside row hmodel hnot
    exact ⟨hpolicy, hexpanded, hnamed⟩

end

theorem fromModels_of_empty (expandedModel paginatedModel : TableRowModel Number)
    {pinning : TableRowPinning} (policy : TableRowPinningPolicy) (hempty : pinning.isEmpty = true) :
    fromModels expandedModel paginatedModel pinning policy = ⟨[], paginatedModel.rows, []⟩ :=
  if_pos hempty

theorem fromModels_of_pinned (expandedModel paginatedModel : TableRowModel Number)
    {pinning : TableRowPinning} (policy : TableRowPinningPolicy)
    (hempty : ¬pinning.isEmpty = true) :
    fromModels expandedModel paginatedModel pinning policy = pinnedFrom (match policy with
          | .keepPinnedRows => expandedModel
          | .pageOnly => paginatedModel) paginatedModel.rows pinning :=
  if_neg hempty

theorem fromModels_partitions {expandedModel paginatedModel : TableRowModel Number}
    (hexpanded : expandedModel.Filed) (hpaginated : paginatedModel.Filed)
    (hdistinct : (identitiesOf expandedModel.rows).Nodup)
    (hpage : paginatedModel.rows.Sublist expandedModel.rows)
    (pinning : TableRowPinning) (policy : TableRowPinningPolicy) :
    (fromModels expandedModel paginatedModel pinning policy).Partitions expandedModel.rows
      paginatedModel.rows pinning policy := by
  have hpageDistinct := hdistinct.sublist (hpage.map TableResolvedRow.identity)
  by_cases hempty : pinning.isEmpty = true
  · rw [fromModels_of_empty _ _ _ hempty]
    have hflattened : (⟨[], paginatedModel.rows, []⟩ : TableRowRegions Number).flattened =
        paginatedModel.rows := append_nil _
    refine ⟨?_, ?_, List.Sublist.refl _, ?_⟩
    · rw [hflattened]
      exact hpageDistinct
    · intro row hrow
      refine ⟨.center, hrow, ?_⟩
      intro region hregion
      cases region with
      | top | bottom => cases hregion
      | center => rfl
    · intro row hrow hnot
      rw [hflattened] at hrow
      exact absurd hrow hnot
  · rw [fromModels_of_pinned _ _ _ hempty]
    cases policy with
    | keepPinnedRows =>
      exact (places_pinnedFrom hexpanded hdistinct).partitions hdistinct hpage
        fun row hrow _ => ⟨rfl, hrow⟩
    | pageOnly =>
      exact (places_pinnedFrom hpaginated hpageDistinct).partitions hpageDistinct
        (List.Sublist.refl _) fun row hrow hnot => absurd hrow hnot

end TableRowRegions

end Regions

variable [TableScalars Number]

namespace TableState

variable (sort : SliceSort (TableResolvedRow Number × TableRowNodes Number))
variable (state : TableState Number)

/-- Rows hidden below closed rows are kept to be looked up, and are no rows of the
model. -/
def expandedModel : TableRowModel Number :=
  .newWithLookup .expanded (state.resolve sort).expanded (state.resolve sort).sorted

def paginatedModel : TableRowModel Number := .new .paginated (state.resolve sort).paginated

def rowRegions (pinning : TableRowPinning) (policy : TableRowPinningPolicy) :
    TableRowRegions Number :=
  .fromModels (state.expandedModel sort) (state.paginatedModel sort) pinning policy

theorem pinning_partitions_page (pinning : TableRowPinning) (policy : TableRowPinningPolicy) :
    (state.rowRegions sort pinning policy).Partitions (state.resolve sort).expanded
      (state.resolve sort).paginated pinning policy :=
  TableRowRegions.fromModels_partitions (TableRowModel.filed_newWithLookup _ _ _)
    (TableRowModel.filed_new _ _) (state.nodup_expanded sort)
    (TablePagination.apply_sublist _ _) pinning policy

end TableState

end OpenGpui.UiCore
