/-
What a diff of two documents records: the ids that are gone, the new ones, and those
whose records differ by the equality of records.
-/
import OpenGpui.Canvas.Document

namespace OpenGpui.Canvas.CanvasDocument

open List CanvasDocumentDiff IndexMap Bool CanvasRecordId

section Records

variable {ν : Type} (tag : String → CanvasRecordId) (current previous : IndexMap String ν)

def goneIds : List String := previous.keys.filter fun id => !current.containsKey id

def newIds : List String :=
  (current.entries.filter fun entry => !previous.containsKey entry.1).map Prod.fst

def changedIds [BEq ν] : List String :=
  (current.entries.filter fun entry =>
    (previous.get entry.1).any fun old => !(old == entry.2)).map Prod.fst

variable {id : String}

theorem mem_goneIds_iff : id ∈ goneIds current previous ↔
      (∃ old, previous.get id = some old) ∧ current.get id = none := by
  rw [goneIds, mem_filter, mem_keys_iff, containsKey_iff, not_eq_true', containsKey_eq_false_iff]

theorem mem_newIds_iff :
    id ∈ newIds current previous ↔ (∃ new, current.get id = some new) ∧ previous.get id = none := by
  rw [newIds, mem_map]
  constructor
  · rintro ⟨entry, hentry, rfl⟩
    rw [mem_filter, not_eq_true', containsKey_eq_false_iff] at hentry
    exact ⟨⟨entry.2, get_eq_some_iff.mpr hentry.1⟩, hentry.2⟩
  · rintro ⟨⟨new, hnew⟩, hnone⟩
    refine ⟨(id, new), ?_, rfl⟩
    rw [mem_filter, not_eq_true', containsKey_eq_false_iff]
    exact ⟨get_eq_some_iff.mp hnew, hnone⟩

theorem mem_changedIds_iff [BEq ν] :
    id ∈ changedIds current previous ↔ ∃ old new, previous.get id = some old ∧
      current.get id = some new ∧ (old == new) = false := by
  rw [changedIds, mem_map]
  constructor
  · rintro ⟨entry, hentry, rfl⟩
    rw [mem_filter, Option.any_eq_true] at hentry
    obtain ⟨hmem, old, hold, hne⟩ := hentry
    exact ⟨old, entry.2, hold, get_eq_some_iff.mpr hmem, by simpa using hne⟩
  · rintro ⟨old, new, hold, hnew, hne⟩
    refine ⟨(id, new), ?_, rfl⟩
    rw [mem_filter, Option.any_eq_true]
    exact ⟨get_eq_some_iff.mp hnew, old, hold, by simpa using hne⟩

/-- The diff has nothing of one kind of record yet. -/
def LacksKind (diff : CanvasDocumentDiff) : Prop :=
  ∀ id, tag id ∉ diff.inserted ∧ tag id ∉ diff.updated ∧ tag id ∉ diff.removed

theorem insertId_of_not_mem {ids : List CanvasRecordId} {id : CanvasRecordId} (h : id ∉ ids) :
    insertId ids id = ids ++ [id] := by
  rw [insertId, if_neg h]

/-- The pass over the previous records appends the ids that are gone. -/
theorem foldl_recordRemove (htag : Function.Injective tag) (ids : List String)
    (hnodup : ids.Nodup) (diff : CanvasDocumentDiff)
    (hinserted : ∀ id ∈ ids, tag id ∉ diff.inserted) (hupdated : ∀ id ∈ ids, tag id ∉ diff.updated)
    (hremoved : ∀ id ∈ ids, tag id ∉ diff.removed) :
    ids.foldl (fun diff id =>
      if current.containsKey id then diff else diff.recordRemove (tag id)) diff =
    { diff with
      removed := diff.removed ++ (ids.filter fun id => !current.containsKey id).map tag } := by
  induction ids generalizing diff with
  | nil => simp
  | cons id rest ih =>
    rw [nodup_cons] at hnodup
    rw [foldl_cons]
    by_cases hstored : current.containsKey id = true
    · rw [if_pos hstored, ih hnodup.2 diff (fun other h => hinserted other (mem_cons_of_mem _ h))
        (fun other h => hupdated other (mem_cons_of_mem _ h))
        (fun other h => hremoved other (mem_cons_of_mem _ h))]
      simp [hstored]
    · have hrecord : diff.recordRemove (tag id) =
          { diff with removed := diff.removed ++ [tag id] } := by
        rw [recordRemove, if_neg (hinserted id mem_cons_self), insertId_of_not_mem (hremoved id
          mem_cons_self), erase_of_not_mem (hupdated id mem_cons_self)]
      rw [if_neg hstored, hrecord, ih hnodup.2]
      · simp [hstored]
      · exact fun other h => hinserted other (mem_cons_of_mem _ h)
      · exact fun other h => hupdated other (mem_cons_of_mem _ h)
      · intro other h hmem
        rcases mem_append.mp hmem with hold | hnew
        · exact hremoved other (mem_cons_of_mem _ h) hold
        · exact hnodup.1 (htag (mem_singleton.mp hnew) ▸ h)

variable [BEq ν]

/-- The pass over the current records appends the new and the changed ids. -/
theorem foldl_recordCurrent (htag : Function.Injective tag) (entries : List (String × ν))
    (hnodup : (entries.map Prod.fst).Nodup) (diff : CanvasDocumentDiff)
    (hinserted : ∀ entry ∈ entries, tag entry.1 ∉ diff.inserted)
    (hupdated : ∀ entry ∈ entries, tag entry.1 ∉ diff.updated)
    (hremoved : ∀ entry ∈ entries, tag entry.1 ∉ diff.removed) :
    entries.foldl (fun diff entry =>
      match previous.get entry.1 with
      | none => diff.recordInsert (tag entry.1)
      | some old => if old == entry.2 then diff else diff.recordUpdate (tag entry.1)) diff =
    { diff with
      inserted := diff.inserted ++ ((entries.filter fun entry =>
        !previous.containsKey entry.1).map Prod.fst).map tag
      updated := diff.updated ++ ((entries.filter fun entry =>
        (previous.get entry.1).any fun old => !(old == entry.2)).map Prod.fst).map tag } := by
  induction entries generalizing diff with
  | nil => simp
  | cons entry rest ih =>
    rw [map_cons, nodup_cons] at hnodup
    have hfresh : ∀ other ∈ rest, tag other.1 ≠ tag entry.1 := by
      intro other h heq
      exact hnodup.1 (htag heq ▸ mem_map_of_mem h)
    have hinsertedRest := fun other h => hinserted other (mem_cons_of_mem entry h)
    have hupdatedRest := fun other h => hupdated other (mem_cons_of_mem entry h)
    have hremovedRest := fun other h => hremoved other (mem_cons_of_mem entry h)
    rw [foldl_cons]
    cases hget : previous.get entry.1 with
    | none =>
      have hkey : previous.containsKey entry.1 = false := containsKey_eq_false_iff.mpr hget
      have hrecord : diff.recordInsert (tag entry.1) =
          { diff with inserted := diff.inserted ++ [tag entry.1] } := by
        rw [recordInsert, if_neg (hremoved entry mem_cons_self),
          insertId_of_not_mem (hinserted entry mem_cons_self)]
      rw [hrecord, ih hnodup.2]
      · simp [hget, hkey]
      · intro other h hmem
        rcases mem_append.mp hmem with hold | hnew
        · exact hinsertedRest other h hold
        · exact hfresh other h (mem_singleton.mp hnew)
      · exact hupdatedRest
      · exact hremovedRest
    | some old =>
      have hkey : previous.containsKey entry.1 = true := containsKey_iff.mpr ⟨old, hget⟩
      dsimp only
      by_cases hsame : (old == entry.2) = true
      · rw [if_pos hsame, ih hnodup.2 diff hinsertedRest hupdatedRest hremovedRest]
        simp [hget, hkey, hsame]
      · have hrecord : diff.recordUpdate (tag entry.1) =
            { diff with updated := diff.updated ++ [tag entry.1] } := by
          rw [recordUpdate, if_pos ⟨hinserted entry mem_cons_self, hremoved entry mem_cons_self⟩,
            insertId_of_not_mem (hupdated entry mem_cons_self)]
        rw [if_neg hsame, hrecord, ih hnodup.2]
        · simp [hget, hkey, hsame]
        · exact hinsertedRest
        · intro other h hmem
          rcases mem_append.mp hmem with hold | hnew
          · exact hupdatedRest other h hold
          · exact hfresh other h (mem_singleton.mp hnew)
        · exact hremovedRest

theorem diffRecords_eq (htag : Function.Injective tag) (diff : CanvasDocumentDiff)
    (hlacks : LacksKind tag diff) :
    diffRecords tag current previous diff =
    { diff with
      inserted := diff.inserted ++ (newIds current previous).map tag
      updated := diff.updated ++ (changedIds current previous).map tag
      removed := diff.removed ++ (goneIds current previous).map tag } := by
  rw [diffRecords, foldl_recordRemove tag current htag previous.keys previous.nodup diff
    (fun id _ => (hlacks id).1) (fun id _ => (hlacks id).2.1) (fun id _ => (hlacks id).2.2)]
  refine foldl_recordCurrent tag previous htag current.entries current.nodup _ ?_ ?_ ?_
  · exact fun entry _ => (hlacks entry.1).1
  · exact fun entry _ => (hlacks entry.1).2.1
  · intro entry hentry hmem
    rcases mem_append.mp hmem with hold | hgone
    · exact (hlacks entry.1).2.2 hold
    · obtain ⟨id, hid, heq⟩ := mem_map.mp hgone
      have hstored : current.containsKey entry.1 = true :=
        containsKey_iff.mpr ⟨entry.2, get_eq_some_iff.mpr hentry⟩
      rw [htag heq, mem_filter, hstored] at hid
      exact absurd hid.2 (by simp)

end Records

/-- A diff lists nodes, then edges, then shapes. -/
theorem diffAgainst_eq (document previous : CanvasDocument) : document.diffAgainst previous =
      { inserted := (newIds document.nodes previous.nodes).map .node ++
          (newIds document.edges previous.edges).map .edge ++
          (newIds document.shapes previous.shapes).map .shape
        updated := (changedIds document.nodes previous.nodes).map .node ++
          (changedIds document.edges previous.edges).map .edge ++
          (changedIds document.shapes previous.shapes).map .shape
        removed := (goneIds document.nodes previous.nodes).map .node ++
          (goneIds document.edges previous.edges).map .edge ++
          (goneIds document.shapes previous.shapes).map .shape
        metadataChanged := document.metadata != previous.metadata
        relationsChanged := document.relations != previous.relations } := by
  have hnodes := diffRecords_eq .node document.nodes previous.nodes
    (fun _ _ h => node.inj h) .default
    (by intro id; simp [CanvasDocumentDiff.default])
  have hedges := diffRecords_eq .edge document.edges previous.edges
    (fun _ _ h => edge.inj h)
    (diffRecords .node document.nodes previous.nodes .default)
    (by intro id; rw [hnodes]; simp [CanvasDocumentDiff.default])
  rw [hnodes] at hedges
  rw [diffAgainst, hnodes, hedges, diffRecords_eq .shape document.shapes previous.shapes
    (fun _ _ h => shape.inj h) _ (by intro id; simp [CanvasDocumentDiff.default])]
  rfl

variable {document previous : CanvasDocument}

theorem node_mem_removed_iff {id : NodeId} : .node id ∈ (document.diffAgainst previous).removed ↔
      (∃ old, previous.nodes.get id = some old) ∧ document.nodes.get id = none := by
  rw [← mem_goneIds_iff, diffAgainst_eq]
  simp

variable {id : EdgeId}

theorem edge_mem_removed_iff : .edge id ∈ (document.diffAgainst previous).removed ↔
      (∃ old, previous.edges.get id = some old) ∧ document.edges.get id = none := by
  rw [← mem_goneIds_iff, diffAgainst_eq]
  simp

theorem edge_mem_updated_iff : .edge id ∈ (document.diffAgainst previous).updated ↔
      ∃ old new, previous.edges.get id = some old ∧ document.edges.get id = some new ∧
        (old == new) = false := by
  rw [← mem_changedIds_iff, diffAgainst_eq]
  simp

theorem edge_mem_inserted_iff : .edge id ∈ (document.diffAgainst previous).inserted ↔
      (∃ new, document.edges.get id = some new) ∧ previous.edges.get id = none := by
  rw [← mem_newIds_iff, diffAgainst_eq]
  simp

end OpenGpui.Canvas.CanvasDocument
