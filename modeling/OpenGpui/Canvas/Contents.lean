/-
What a document holds, regardless of the order in which it stores it.  Documents
with the same records accept the same edges and relations, and a document that is
equal to itself is equal to every document with the same contents.
-/
import OpenGpui.Canvas.DocumentSession
import OpenGpui.Canvas.RelationEdits

namespace OpenGpui.Canvas.CanvasDocument

open CanvasRecordRelations IndexMap List CanvasRecordRelation

/-- Every record is stored under its own id. -/
structure WellKeyed (document : CanvasDocument) : Prop where
  nodes : document.nodes.NamedBy CanvasNode.id
  edges : document.edges.NamedBy CanvasEdge.id
  shapes : document.shapes.NamedBy CanvasShape.id

theorem WellKeyed.edges_values_ids {document : CanvasDocument} (hkeyed : document.WellKeyed) :
    document.edges.values.map (·.id) = document.edges.keys := by
  rw [values, map_map]
  apply map_congr_left
  intro entry hentry
  exact hkeyed.edges entry.1 entry.2 (get_eq_some_iff.mpr hentry)

/-- A document that a builder or a commit can lead to: every record is stored under
its own id, and the integrity check passes. -/
structure Valid (document : CanvasDocument) : Prop where
  wellKeyed : document.WellKeyed
  integrity : document.validateIntegrity = .ok ()

/-- The documents agree on everything but their relations and the order of their
records. -/
structure SameRecords (document other : CanvasDocument) : Prop where
  formatVersion : document.formatVersion = other.formatVersion
  metadata : document.metadata = other.metadata
  nodes : ∀ id, document.nodes.get id = other.nodes.get id
  edges : ∀ id, document.edges.get id = other.edges.get id
  shapes : ∀ id, document.shapes.get id = other.shapes.get id

/-- The documents agree on everything but the order of what they store. -/
structure SameContents (document other : CanvasDocument) : Prop where
  records : document.SameRecords other
  keyed : document.relations.Keyed
  otherKeyed : other.relations.Keyed
  relations : ∀ relation, document.relations.Holds relation ↔ other.relations.Holds relation

namespace SameRecords

variable {document other : CanvasDocument} (h : document.SameRecords other)

include h

theorem symm : other.SameRecords document :=
  ⟨h.formatVersion.symm, h.metadata.symm, fun id => (h.nodes id).symm, fun id => (h.edges id).symm,
    fun id => (h.shapes id).symm⟩

theorem trans {last : CanvasDocument}
    (hnext : other.SameRecords last) : document.SameRecords last :=
  ⟨h.formatVersion.trans hnext.formatVersion, h.metadata.trans hnext.metadata,
    fun id => (h.nodes id).trans (hnext.nodes id), fun id => (h.edges id).trans (hnext.edges id),
    fun id => (h.shapes id).trans (hnext.shapes id)⟩

theorem containsRecord (id : CanvasRecordId) :
    document.containsRecord id = other.containsRecord id := by
  cases id with
  | node id => rw [CanvasDocument.containsRecord, CanvasDocument.containsRecord,
      containsKey, containsKey, h.nodes]
  | edge id => rw [CanvasDocument.containsRecord, CanvasDocument.containsRecord,
      containsKey, containsKey, h.edges]
  | shape id => rw [CanvasDocument.containsRecord, CanvasDocument.containsRecord,
      containsKey, containsKey, h.shapes]

theorem validateEdge (edge : CanvasEdge) : document.validateEdge edge = other.validateEdge edge :=
  validateEdge_congr other (h.nodes _) (h.nodes _)

theorem recordsValid (hvalid : other.RecordsValid) : document.RecordsValid := by
  refine ⟨?_, ?_⟩
  · intro id node hget
    exact hvalid.nodes id node (h.nodes id ▸ hget)
  · intro id edge hget
    rw [h.validateEdge]
    exact hvalid.edges id edge (h.edges id ▸ hget)

theorem wellKeyed (hkeyed : other.WellKeyed) : document.WellKeyed :=
  ⟨fun id node hget => hkeyed.nodes id node (h.nodes id ▸ hget),
    fun id edge hget => hkeyed.edges id edge (h.edges id ▸ hget),
    fun id shape hget => hkeyed.shapes id shape (h.shapes id ▸ hget)⟩

end SameRecords

theorem parts_beq_iff {document other : CanvasDocument} : (document == other) = true ↔
    (document.formatVersion == other.formatVersion) = true ∧
      (document.nodes == other.nodes) = true ∧ (document.edges == other.edges) = true ∧
        (document.shapes == other.shapes) = true ∧ (document.metadata == other.metadata) = true ∧
          (document.relations == other.relations) = true := by
  simp only [← Bool.and_eq_true]
  exact Iff.rfl

namespace SameContents

variable {document other : CanvasDocument}

/-- Equality of documents looks only at their contents.  A document can differ from
itself, since a NaN coordinate does. -/
theorem beq (h : document.SameContents other) (hself : (other == other) = true) :
    (document == other) = true := by
  obtain ⟨hversion, hnodes, hedges, hshapes, hmetadata, _⟩ := parts_beq_iff.mp hself
  rw [parts_beq_iff, h.records.formatVersion, h.records.metadata]
  exact ⟨hversion, beq_of_get h.records.nodes hnodes, beq_of_get h.records.edges hedges, beq_of_get
    h.records.shapes hshapes, hmetadata, beq_of_holds_iff h.keyed h.otherKeyed h.relations⟩

end SameContents

/-- Relations join two different records. -/
def Joined (relations : CanvasRecordRelations) : Prop :=
  ∀ relation, relations.Holds relation → relation.ends.1 ≠ relation.ends.2

/-- Both records of a relation are stored. -/
def StoresEnds (document : CanvasDocument) (relation : CanvasRecordRelation) : Prop :=
  document.containsRecord relation.ends.1 = true ∧ document.containsRecord relation.ends.2 = true

theorem owns_iff_holds (document : CanvasDocument) (owner owned : CanvasRecordId) :
    document.Owns owner owned ↔ document.relations.Holds (.parent ⟨owned, owner⟩) ∨
      document.relations.Holds (.group ⟨owner, owned⟩) := Iff.rfl

/-- Relation checks told by the relations a document holds. -/
theorem relationsWellFormed_iff (document : CanvasDocument) :
    document.RelationsWellFormed ↔ document.relations.Keyed ∧ Joined document.relations ∧
      (∀ relation, document.relations.Holds relation → document.StoresEnds relation) ∧
        document.OwnershipAcyclic := by
  constructor
  · intro h
    refine ⟨⟨h.parentUnique, h.groupUnique, h.bindingUnique⟩, ?_, ?_, h.acyclic⟩
    · intro relation hholds
      cases relation with
      | parent relation => exact (h.parentsJoin relation hholds).1
      | group relation => exact (h.groupsJoin relation hholds).1
      | binding relation => exact (h.bindingsJoin relation hholds).1
    · intro relation hholds
      cases relation with
      | parent relation => exact (h.parentsJoin relation hholds).2
      | group relation => exact (h.groupsJoin relation hholds).2
      | binding relation => exact (h.bindingsJoin relation hholds).2
  · rintro ⟨hkeyed, hjoined, hstored, hacyclic⟩
    exact ⟨hkeyed.parents,
      fun relation hmem => ⟨hjoined (.parent relation) hmem, hstored (.parent relation) hmem⟩,
      hkeyed.groups,
      fun relation hmem => ⟨hjoined (.group relation) hmem, hstored (.group relation) hmem⟩,
      hkeyed.bindings,
      fun relation hmem => ⟨hjoined (.binding relation) hmem, hstored (.binding relation) hmem⟩,
      hacyclic⟩

/-- Fewer relations between the same records are still well formed. -/
theorem RelationsWellFormed.within {document other : CanvasDocument} (h : other.RelationsWellFormed)
    (hstored : ∀ id, other.containsRecord id = document.containsRecord id)
    (hkeyed : document.relations.Keyed) (hwithin : document.relations.Within other.relations) :
    document.RelationsWellFormed := by
  obtain ⟨_, hjoined, hends, hacyclic⟩ := (relationsWellFormed_iff other).mp h
  refine (relationsWellFormed_iff document).mpr ⟨hkeyed, ?_, ?_, ?_⟩
  · intro relation hholds
    exact hjoined relation (hwithin relation hholds)
  · intro relation hholds
    have hboth := hends relation (hwithin relation hholds)
    rw [StoresEnds, hstored, hstored] at hboth
    exact hboth
  · intro id hcycle
    have howns : document.Owns ≤ other.Owns := by
      rintro owner owned (hparent | hgroup)
      · exact .inl (hwithin (.parent ⟨owned, owner⟩) hparent)
      · exact .inr (hwithin (.group ⟨owner, owned⟩) hgroup)
    exact hacyclic id (Relation.TransGen.mono howns _ _ hcycle)

/-- Well-formed relations lose nothing when missing records are pruned. -/
theorem pruneMissingRelations_of_wellFormed {document : CanvasDocument}
    (h : document.RelationsWellFormed) : document.pruneMissingRelations = document := by
  have hkeep : ∀ relation, document.relations.Holds relation →
      relation.ends.1 ∈ document.recordIdSet ∧ relation.ends.2 ∈ document.recordIdSet := by
    intro relation hholds
    rw [mem_recordIdSet_iff, mem_recordIdSet_iff]
    exact ((relationsWellFormed_iff document).mp h).2.2.1 relation hholds
  rw [pruneMissingRelations, pruneMissingRecords, filter_eq_self.mpr fun relation hmem => ?_,
    filter_eq_self.mpr fun relation hmem => ?_,
    filter_eq_self.mpr fun relation hmem => ?_]
  · simpa [ends] using hkeep (.binding relation) hmem
  · simpa [ends] using hkeep (.group relation) hmem
  · simpa [ends] using hkeep (.parent relation) hmem

end OpenGpui.Canvas.CanvasDocument
