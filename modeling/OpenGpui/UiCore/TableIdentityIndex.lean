/-
The index of source identities: two passes count the business ids and the instance
ids, a third numbers the rows of each id and picks an identity for every row, and
lookups go from identities back to rows.
-/
import OpenGpui.Library.IndexMapCarry
import OpenGpui.Library.Tally
import OpenGpui.UiCore.TableRows

namespace OpenGpui.UiCore

open IndexMap Tally List Option Nat TableSourceInstanceIdentity

inductive TableSourceRowLookup where
  | found (sourceIndex : Nat)
  | missing
  | ambiguous
  | staleSnapshot

/-- Maps of the index are only looked up in, so the order of their keys is left open. -/
structure TableSourceIdentityIndex where
  sourceSnapshot : Nat
  sourceIdCounts : Tally TableRowId
  explicitInstanceCounts : Tally (TableRowId × TableRowInstanceId)
  identitiesBySourceIndex : List TableSourceRowIdentity
  sourceIndexByIdentity : IndexMap TableSourceRowIdentity Nat
  identitiesByRowId : IndexMap TableRowId (List TableSourceRowIdentity)

variable {Number : Type}

namespace TableSourceIdentityIndex

/-- Counts the ids of the rows and of all below them. -/
def record : Forest (TableRow Number) → TableSourceIdentityIndex → TableSourceIdentityIndex
  | .nil, index => index
  | .cons row children rest, index =>
    let counted : TableSourceIdentityIndex :=
      { index with
        sourceIdCounts := index.sourceIdCounts.add row.id
        explicitInstanceCounts :=
          match row.instanceId with
          | some instanceId => index.explicitInstanceCounts.add (row.id, instanceId)
          | none => index.explicitInstanceCounts }
    record rest (record children counted)

def resolve (index : TableSourceIdentityIndex) (row : TableRow Number) (occurrence : Nat) :
    TableSourceRowIdentity :=
  let byId : TableSourceInstanceIdentity :=
    if index.sourceIdCounts.count row.id = 1 then .unique
    else .occurrence index.sourceSnapshot occurrence
  { rowId := row.id
    instanceIdentity :=
      match row.instanceId with
      | some instanceId =>
        if index.explicitInstanceCounts.count (row.id, instanceId) = 1 then
          .explicit instanceId
        else byId
      | none => byId }

/-- Appends the identities of the rows, numbering those of each id as they come. -/
def recordIdentities : Forest (TableRow Number) → TableSourceIdentityIndex →
    Tally TableRowId → TableSourceIdentityIndex × Tally TableRowId
  | .nil, index, occurrences => (index, occurrences)
  | .cons row children rest, index, occurrences =>
    let identity := index.resolve row (occurrences.count row.id)
    let pushed : TableSourceIdentityIndex :=
      { index with identitiesBySourceIndex := index.identitiesBySourceIndex ++ [identity] }
    let below := recordIdentities children pushed (occurrences.add row.id)
    recordIdentities rest below.1 below.2

/-- One identity with its place, filed under its business id and under itself. -/
def file (index : TableSourceIdentityIndex) (entry : TableSourceRowIdentity × Nat) :
    TableSourceIdentityIndex :=
  { index with
    identitiesByRowId := index.identitiesByRowId.insert entry.1.rowId
      ((index.identitiesByRowId.get entry.1.rowId).getD [] ++ [entry.1])
    sourceIndexByIdentity := index.sourceIndexByIdentity.insert entry.1 entry.2 }

def new (rows : Forest (TableRow Number)) (sourceSnapshot : Nat) : TableSourceIdentityIndex :=
  let empty : TableSourceIdentityIndex :=
    { sourceSnapshot, sourceIdCounts := .empty, explicitInstanceCounts := .empty
      identitiesBySourceIndex := [], sourceIndexByIdentity := .empty
      identitiesByRowId := .empty }
  let index := (recordIdentities rows (record rows empty) .empty).1
  index.identitiesBySourceIndex.zipIdx.foldl file index

/-- An occurrence counts in the snapshot it was numbered in. -/
def isStale (index : TableSourceIdentityIndex) (target : TableSourceRowIdentity) : Bool :=
  match target.instanceIdentity with
  | .occurrence sourceSnapshot _ => sourceSnapshot != index.sourceSnapshot
  | _ => false

def isAmbiguous (index : TableSourceIdentityIndex) (target : TableSourceRowIdentity) : Bool :=
  match target.instanceIdentity with
  | .unique => decide (1 < index.sourceIdCounts.count target.rowId)
  | .explicit instanceId =>
    decide (1 < index.explicitInstanceCounts.count (target.rowId, instanceId))
  | .occurrence _ _ => false

def lookup (index : TableSourceIdentityIndex) (target : TableSourceRowIdentity) :
    TableSourceRowLookup :=
  if index.isStale target then .staleSnapshot
  else if index.isAmbiguous target then .ambiguous
  else
    match index.sourceIndexByIdentity.get target with
    | some sourceIndex => .found sourceIndex
    | none => .missing

section Counts

/-- The business id and instance id of a row that has one. -/
def instanceKey (row : TableRow Number) : Option (TableRowId × TableRowInstanceId) :=
  row.instanceId.map fun instanceId => (row.id, instanceId)

variable (rows : Forest (TableRow Number)) (index : TableSourceIdentityIndex)

theorem record_eq :
    record rows index = { index with
        sourceIdCounts := index.sourceIdCounts.addAll (rows.flatten.map TableRow.id)
        explicitInstanceCounts :=
          index.explicitInstanceCounts.addAll (rows.flatten.filterMap instanceKey) } := by
  induction rows generalizing index with
  | nil => rfl
  | cons row children rest ihChildren ihRest =>
    rw [record, ihChildren, ihRest, Forest.flatten]
    cases hinstance : row.instanceId with
    | none | some instanceId => simp [addAll, instanceKey, hinstance]

/-- The identities are those of the rows in preorder, each with the count of the rows of
its id before it. -/
theorem recordIdentities_eq (occurrences : Tally TableRowId) :
    recordIdentities rows index occurrences = ({ index with
          identitiesBySourceIndex := index.identitiesBySourceIndex ++
            (number TableRow.id occurrences rows.flatten).map fun entry =>
              index.resolve entry.1 entry.2 },
        occurrences.addAll (rows.flatten.map TableRow.id)) := by
  induction rows generalizing index occurrences with
  | nil => simp [recordIdentities, Forest.flatten, number, addAll]
  | cons row children rest ihChildren ihRest =>
    rw [recordIdentities, ihChildren, ihRest, Forest.flatten, number, number_append]
    simp only [map_cons, map_append, append_assoc, cons_append, nil_append, Prod.mk.injEq]
    constructor
    · rfl
    · exact (addAll_append _ _ _).symm

theorem exists_foldl_file (entries : List (TableSourceRowIdentity × Nat))
    (index : TableSourceIdentityIndex) :
    ∃ identitiesByRowId, entries.foldl file index = { index with
        sourceIndexByIdentity := index.sourceIndexByIdentity.insertAll entries
        identitiesByRowId } := by
  induction entries generalizing index with
  | nil => exact ⟨_, rfl⟩
  | cons entry rest ih =>
    obtain ⟨identitiesByRowId, hrest⟩ := ih (index.file entry)
    exact ⟨identitiesByRowId, hrest⟩

/-- What an index knows of the rows it was made from. -/
structure Indexes (index : TableSourceIdentityIndex) (rows : List (TableRow Number))
    (sourceSnapshot : Nat) : Prop where
  snapshot : index.sourceSnapshot = sourceSnapshot
  idCount : ∀ id, index.sourceIdCounts.count id =
    (rows.map TableRow.id).countP fun other => decide (other = id)
  instanceCount : ∀ key, index.explicitInstanceCounts.count key =
    (rows.filterMap instanceKey).countP fun other => decide (other = key)
  identities : index.identitiesBySourceIndex =
    (number TableRow.id .empty rows).map fun entry => index.resolve entry.1 entry.2
  filed : index.sourceIndexByIdentity =
    IndexMap.empty.insertAll index.identitiesBySourceIndex.zipIdx

theorem new_indexes (sourceSnapshot : Nat) :
    (new rows sourceSnapshot).Indexes rows.flatten sourceSnapshot := by
  rw [new, recordIdentities_eq, record_eq]
  obtain ⟨identitiesByRowId, hfiled⟩ := exists_foldl_file _ _
  rw [hfiled]
  constructor
  · rfl
  · intro id
    exact (count_addAll _ _ _).trans (zero_add _)
  · intro key
    exact (count_addAll _ _ _).trans (zero_add _)
  · rfl
  · rfl

end Counts

variable {index : TableSourceIdentityIndex} {rows : List (TableRow Number)}
variable {sourceSnapshot : Nat} (row : TableRow Number)

@[simp] theorem resolve_rowId (occurrence : Nat) :
    (index.resolve row occurrence).rowId = row.id := rfl

/-- The three ways in which a row is told from the others of its id. -/
theorem resolve_cases (occurrence : Nat) : (∃ instanceId, row.instanceId = some instanceId ∧
      index.explicitInstanceCounts.count (row.id, instanceId) = 1 ∧
        (index.resolve row occurrence).instanceIdentity = .explicit instanceId) ∨
      (index.sourceIdCounts.count row.id = 1 ∧
        (index.resolve row occurrence).instanceIdentity = .unique) ∨
      (index.resolve row occurrence).instanceIdentity =
        .occurrence index.sourceSnapshot occurrence := by
  have hbyId : ∀ identity : TableSourceRowIdentity, identity.instanceIdentity =
      (if index.sourceIdCounts.count row.id = 1 then .unique
        else .occurrence index.sourceSnapshot occurrence) →
      (index.sourceIdCounts.count row.id = 1 ∧ identity.instanceIdentity = .unique) ∨
        identity.instanceIdentity = .occurrence index.sourceSnapshot occurrence := by
    intro identity hidentity
    by_cases hcount : index.sourceIdCounts.count row.id = 1
    · rw [if_pos hcount] at hidentity
      exact .inl ⟨hcount, hidentity⟩
    · rw [if_neg hcount] at hidentity
      exact .inr hidentity
  cases hinstance : row.instanceId with
  | none =>
    right
    apply hbyId
    rw [resolve, hinstance]
  | some instanceId =>
    by_cases hcount : index.explicitInstanceCounts.count (row.id, instanceId) = 1
    · left
      refine ⟨instanceId, rfl, hcount, ?_⟩
      simp [resolve, hinstance, hcount]
    · right
      apply hbyId
      simp [resolve, hinstance, hcount]

theorem one_lt_countP_of_sublist {β : Type} [DecidableEq β] {values : List β} {value : β}
    (h : [value, value].Sublist values) :
    1 < values.countP fun other => decide (other = value) := by
  have hle := h.countP_le (p := fun other => decide (other = value))
  have htwo : 2 ≤ values.countP fun other => decide (other = value) := by simpa using hle
  exact htwo

section

variable (h : index.Indexes rows sourceSnapshot)

include h

/-- Two rows are never given one identity. -/
theorem Indexes.identities_nodup : index.identitiesBySourceIndex.Nodup := by
  rw [h.identities, List.Nodup, pairwise_map, pairwise_iff_forall_sublist]
  intro earlier later hsublist hsame
  have hrows : [earlier.1, later.1].Sublist rows := by
    have hmap := hsublist.map Prod.fst
    rw [map_fst_number] at hmap
    exact hmap
  have hid : earlier.1.id = later.1.id := congrArg TableSourceRowIdentity.rowId hsame
  have hinstance := congrArg TableSourceRowIdentity.instanceIdentity hsame
  rcases index.resolve_cases earlier.1 earlier.2 with
    ⟨instanceId, hexplicit, hcount, hkind⟩ | ⟨hcount, hkind⟩ | hkind
  · -- the later row has the instance id as well, so the id was counted twice
    rcases index.resolve_cases later.1 later.2 with
      ⟨other, hother, -, hlater⟩ | ⟨-, hlater⟩ | hlater
    · rw [hkind, hlater, explicit.injEq] at hinstance
      have hkeys := hrows.filterMap instanceKey
      have hfirst : instanceKey earlier.1 = some (earlier.1.id, instanceId) := by
        rw [instanceKey, hexplicit]
        rfl
      have hsecond : instanceKey later.1 = some (earlier.1.id, instanceId) := by
        rw [instanceKey, hother, hid, hinstance]
        rfl
      rw [filterMap_cons_some hfirst, filterMap_cons_some hsecond] at hkeys
      have htwice := one_lt_countP_of_sublist hkeys
      rw [← h.instanceCount, hcount] at htwice
      exact lt_irrefl 1 htwice
    · rw [hkind, hlater] at hinstance
      cases hinstance
    · rw [hkind, hlater] at hinstance
      cases hinstance
  · have hids := hrows.map TableRow.id
    rw [map_cons, map_cons, ← hid] at hids
    have htwice := one_lt_countP_of_sublist hids
    rw [← h.idCount, hcount] at htwice
    exact lt_irrefl 1 htwice
  · have hlt := pairwise_iff_forall_sublist.mp (pairwise_number _ _) hsublist hid
    rcases index.resolve_cases later.1 later.2 with ⟨other, -, -, hlater⟩ | ⟨-, hlater⟩ | hlater
    · rw [hkind, hlater] at hinstance
      cases hinstance
    · rw [hkind, hlater] at hinstance
      cases hinstance
    · rw [hkind, hlater, occurrence.injEq] at hinstance
      omega

variable (target : TableSourceRowIdentity)

theorem Indexes.get_sourceIndexByIdentity (sourceIndex : Nat) :
    index.sourceIndexByIdentity.get target = some sourceIndex ↔
      index.identitiesBySourceIndex[sourceIndex]? = some target := by
  have hkeys : (index.identitiesBySourceIndex.zipIdx.map Prod.fst).Nodup := by
    rw [zipIdx_map_fst]
    exact h.identities_nodup
  rw [h.filed, get_insertAll hkeys, get_empty, or_none,
    lookup_eq_some_iff hkeys, mem_zipIdx_iff_getElem?]

/-- The identity of a row is neither stale nor ambiguous. -/
theorem Indexes.settled_of_mem
    {target : TableSourceRowIdentity} (htarget : target ∈ index.identitiesBySourceIndex) :
    index.isStale target = false ∧ index.isAmbiguous target = false := by
  rw [h.identities] at htarget
  obtain ⟨entry, _, rfl⟩ := mem_map.mp htarget
  rcases index.resolve_cases entry.1 entry.2 with
    ⟨instanceId, -, hcount, hkind⟩ | ⟨hcount, hkind⟩ | hkind
  · simp [isStale, isAmbiguous, hkind, hcount]
  · simp [isStale, isAmbiguous, hkind, hcount]
  · simp [isStale, isAmbiguous, hkind]

theorem Indexes.lookup_eq_found_iff (sourceIndex : Nat) : index.lookup target = .found sourceIndex ↔
      index.identitiesBySourceIndex[sourceIndex]? = some target := by
  rw [← h.get_sourceIndexByIdentity]
  constructor
  · intro hfound
    rw [lookup] at hfound
    by_cases hstale : index.isStale target = true
    · rw [if_pos hstale] at hfound
      cases hfound
    · by_cases hambiguous : index.isAmbiguous target = true
      · rw [if_neg hstale, if_pos hambiguous] at hfound
        cases hfound
      · rw [if_neg hstale, if_neg hambiguous] at hfound
        cases hget : index.sourceIndexByIdentity.get target with
        | none =>
          rw [hget] at hfound
          cases hfound
        | some position =>
          rw [hget] at hfound
          rw [TableSourceRowLookup.found.inj hfound]
  · intro hget
    have hmem : target ∈ index.identitiesBySourceIndex :=
      mem_of_getElem? ((h.get_sourceIndexByIdentity target sourceIndex).mp hget)
    obtain ⟨hstale, hambiguous⟩ := h.settled_of_mem hmem
    rw [lookup, hstale, hambiguous, hget]
    rfl

end

theorem countP_instanceKey (rows : List (TableRow Number)) (id : TableRowId)
    (instanceId : TableRowInstanceId) :
    (rows.filterMap instanceKey).countP (fun other => decide (other = (id, instanceId))) =
      rows.countP fun row => row.id == id && row.instanceId == some instanceId := by
  rw [countP_filterMap]
  apply countP_congr
  intro row _
  cases hinstance : row.instanceId with
  | none | some other => simp [instanceKey, hinstance]

/-- The identities in preorder, as they are assigned to rows when the table is resolved. -/
theorem identities_eq_sourceRowIdentities (rows : Forest (TableRow Number)) (sourceSnapshot : Nat) :
    (new rows sourceSnapshot).identitiesBySourceIndex =
      sourceRowIdentities rows sourceSnapshot := by
  have h := new_indexes rows sourceSnapshot
  rw [h.identities]
  apply ext_getElem?
  intro position
  rw [getElem?_map, getElem?_number, sourceRowIdentities, getElem?_map, getElem?_zipIdx]
  cases rows.flatten[position]? with
  | none => rfl
  | some row =>
    have hinstance := countP_instanceKey rows.flatten row.id
    simp only [map_some, resolve, h.idCount, h.instanceCount, h.snapshot,
      countP_map, hinstance, count_empty, zero_add]
    rfl

end TableSourceIdentityIndex

end OpenGpui.UiCore
