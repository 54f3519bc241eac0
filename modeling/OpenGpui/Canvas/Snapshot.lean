/-
Snapshots.  A document is written as the list of its records and read back by
building it from them; a valid document of the current format comes back as it was.
-/
import OpenGpui.Canvas.Settled

namespace OpenGpui.Canvas

open Checked CanvasDocumentBuilder IndexMap List CanvasDocument

structure CanvasSnapshot where
  formatVersion : UInt32
  nodes : List CanvasNode
  edges : List CanvasEdge
  shapes : List CanvasShape
  metadata : CanvasValue
  relations : CanvasRecordRelations
deriving BEq

def CANVAS_DOCUMENT_MIN_SUPPORTED_FORMAT_VERSION : UInt32 := 1

structure CanvasSnapshotMigration where
  fromVersion : UInt32
  toVersion : UInt32

def CANVAS_SNAPSHOT_MIGRATIONS : List CanvasSnapshotMigration := []

def validateCanvasDocumentFormatVersion (formatVersion : UInt32) : Except DocumentError Unit :=
  if formatVersion < CANVAS_DOCUMENT_MIN_SUPPORTED_FORMAT_VERSION ∨
      formatVersion > CANVAS_DOCUMENT_FORMAT_VERSION then
    .error (.unsupportedFormatVersion CANVAS_DOCUMENT_FORMAT_VERSION formatVersion)
  else .ok ()

def migrateCanvasSnapshot (snapshot : CanvasSnapshot) : Except DocumentError CanvasSnapshot := do
  validateCanvasDocumentFormatVersion snapshot.formatVersion
  let formatVersion := CANVAS_SNAPSHOT_MIGRATIONS.foldl (fun version migration =>
      if version = migration.fromVersion then migration.toVersion else version)
    snapshot.formatVersion
  if formatVersion ≠ CANVAS_DOCUMENT_FORMAT_VERSION then
    .error (.unsupportedFormatVersion CANVAS_DOCUMENT_FORMAT_VERSION formatVersion)
  else return { snapshot with formatVersion }

namespace CanvasDocument

def fromSnapshotWithKindRegistry (snapshot : CanvasSnapshot) (kindRegistry : CanvasKindRegistry) :
    Except DocumentError CanvasDocument := do
  let snapshot ← migrateCanvasSnapshot snapshot
  let builder := ((new.withFormatVersion snapshot.formatVersion).withMetadata
    snapshot.metadata).withRelations snapshot.relations
  let builder ← snapshot.nodes.foldlM (fun builder node => do
    builder.addNode (← liftSchema (kindRegistry.normalizeNode node))) builder
  let builder ← snapshot.shapes.foldlM (fun builder shape => do
    builder.addShape (← liftSchema (kindRegistry.normalizeShape shape))) builder
  let builder ← snapshot.edges.foldlM (fun builder edge => do
    builder.addEdge (← liftSchema (kindRegistry.normalizeEdge edge))) builder
  builder.buildWithKindRegistry kindRegistry

def fromSnapshot (snapshot : CanvasSnapshot) : Except DocumentError CanvasDocument :=
  fromSnapshotWithKindRegistry snapshot .openRegistry

def toSnapshot (document : CanvasDocument) : CanvasSnapshot where
  formatVersion := document.formatVersion
  nodes := document.nodes.values
  edges := document.edges.values
  shapes := document.shapes.values
  metadata := document.metadata
  relations := document.relations

section Read

variable {kindRegistry : CanvasKindRegistry} {snapshot : CanvasSnapshot}
  {document : CanvasDocument}

theorem liftSchema_eq_ok {α : Type} {result : Except CanvasSchemaError α} {value : α} :
    liftSchema result = .ok value ↔ result = .ok value := by
  cases result with
  | error error | ok other => simp [liftSchema, Except.mapError]

theorem migrate_formatVersion {migrated : CanvasSnapshot}
    (h : migrateCanvasSnapshot snapshot = .ok migrated) :
    migrated.formatVersion = CANVAS_DOCUMENT_FORMAT_VERSION := by
  rw [migrateCanvasSnapshot, check_bind_eq_ok] at h
  obtain ⟨_, h⟩ := h
  rw [guard_eq_ok, not_ne_iff, pure_eq_ok] at h
  obtain ⟨hversion, rfl⟩ := h
  exact hversion

/-- What holds of a fresh builder of the current format, and is kept by adding
normalized records, holds of the builder a snapshot is read into. -/
theorem fromSnapshot_builder (invariant : CanvasDocumentBuilder → Prop)
    (hstart : ∀ metadata relations, invariant (((new.withFormatVersion
        CANVAS_DOCUMENT_FORMAT_VERSION).withMetadata metadata).withRelations relations))
    (hnode : ∀ builder node kept next, kindRegistry.normalizeNode node = .ok kept →
      builder.addNode kept = .ok next → invariant builder → invariant next)
    (hshape : ∀ builder shape kept next, kindRegistry.normalizeShape shape = .ok kept →
      builder.addShape kept = .ok next → invariant builder → invariant next)
    (hedge : ∀ builder edge kept next, kindRegistry.normalizeEdge edge = .ok kept →
      builder.addEdge kept = .ok next → invariant builder → invariant next)
    (h : fromSnapshotWithKindRegistry snapshot kindRegistry = .ok document) :
    ∃ builder, invariant builder ∧ builder.buildWithKindRegistry kindRegistry = .ok document := by
  rw [fromSnapshotWithKindRegistry, bind_eq_ok] at h
  obtain ⟨migrated, hmigrated, h⟩ := h
  rw [migrate_formatVersion hmigrated, bind_eq_ok] at h
  obtain ⟨withNodes, hnodes, h⟩ := h
  rw [bind_eq_ok] at h
  obtain ⟨withShapes, hshapes, h⟩ := h
  rw [bind_eq_ok] at h
  obtain ⟨withEdges, hedges, h⟩ := h
  have hnodesKept : invariant withNodes := by
    refine foldlM_invariant (fun builder node next hstep hbuilder => ?_) hnodes (hstart _ _)
    obtain ⟨kept, hkept, hadd⟩ := bind_eq_ok.mp hstep
    exact hnode builder node kept next (liftSchema_eq_ok.mp hkept) hadd hbuilder
  have hshapesKept : invariant withShapes := by
    refine foldlM_invariant (fun builder shape next hstep hbuilder => ?_) hshapes hnodesKept
    obtain ⟨kept, hkept, hadd⟩ := bind_eq_ok.mp hstep
    exact hshape builder shape kept next (liftSchema_eq_ok.mp hkept) hadd hbuilder
  have hedgesKept : invariant withEdges := by
    refine foldlM_invariant (fun builder edge next hstep hbuilder => ?_) hedges hshapesKept
    obtain ⟨kept, hkept, hadd⟩ := bind_eq_ok.mp hstep
    exact hedge builder edge kept next (liftSchema_eq_ok.mp hkept) hadd hbuilder
  exact ⟨withEdges, hedgesKept, h⟩

section

variable (h : fromSnapshotWithKindRegistry snapshot kindRegistry = .ok document)

include h

/-- Reading a snapshot makes calls on a builder. -/
theorem fromSnapshot_builds : ∃ calls, CanvasDocumentBuilder.Builds calls document := by
  have hcall : ∀ {builder next : CanvasDocumentBuilder} (call : BuilderCall),
      builder.call call = next → (∃ calls, afterCalls calls = builder) →
        ∃ calls, afterCalls calls = next := by
    rintro builder next call rfl ⟨calls, rfl⟩
    exact ⟨calls ++ [call], foldl_append⟩
  obtain ⟨builder, ⟨calls, rfl⟩, hbuild⟩ := fromSnapshot_builder
    (fun builder => ∃ calls, afterCalls calls = builder)
    (fun metadata relations => ⟨[.withFormatVersion CANVAS_DOCUMENT_FORMAT_VERSION,
      .withMetadata metadata, .withRelations relations], rfl⟩)
    (fun builder _ kept next _ hadd => hcall (.addNode kept) (by
      rw [call, hadd]
      rfl))
    (fun builder _ kept next _ hadd => hcall (.addShape kept) (by
      rw [call, hadd]
      rfl))
    (fun builder _ kept next _ hadd => hcall (.addEdge kept) (by
      rw [call, hadd]
      rfl)) h
  exact ⟨calls, .inr ⟨kindRegistry, hbuild⟩⟩

theorem fromSnapshot_valid : document.Valid := by
  obtain ⟨calls, hbuilds⟩ := fromSnapshot_builds h
  exact builds_valid hbuilds

theorem fromSnapshot_formatVersion : document.formatVersion = CANVAS_DOCUMENT_FORMAT_VERSION := by
  have hadd : ∀ {builder next : CanvasDocumentBuilder} (command : DocumentCommand),
      CanvasDocumentBuilder.mk <$> builder.document.apply command = .ok next →
      builder.document.formatVersion = CANVAS_DOCUMENT_FORMAT_VERSION →
      next.document.formatVersion = CANVAS_DOCUMENT_FORMAT_VERSION := by
    intro builder next command hcommand hversion
    obtain ⟨after, happly, rfl⟩ := map_eq_ok.mp hcommand
    rw [effect_of_apply happly]
    exact (effect_formatVersion builder.document command).trans hversion
  obtain ⟨builder, hversion, hbuild⟩ := fromSnapshot_builder
    (fun builder => builder.document.formatVersion = CANVAS_DOCUMENT_FORMAT_VERSION)
    (fun _ _ => rfl)
    (fun _ _ kept _ _ hnode => hadd (.insertNode kept) hnode)
    (fun _ _ kept _ _ hshape => hadd (.insertShape kept) hshape)
    (fun _ _ kept _ _ hedge => hadd (.insertEdge kept) hedge) h
  rw [buildWithKindRegistry, check_bind_eq_ok, check_bind_eq_ok, pure_eq_ok] at hbuild
  exact hbuild.2.2 ▸ hversion

end

/-- The records read from a snapshot are normalized. -/
theorem fromSnapshot_settled (hregistry : kindRegistry.Idempotent)
    (h : fromSnapshotWithKindRegistry snapshot kindRegistry = .ok document) :
    SettledRecords kindRegistry document := by
  have hadd : ∀ {builder next : CanvasDocumentBuilder} (command : DocumentCommand),
      CanvasDocumentBuilder.mk <$> builder.document.apply command = .ok next →
      (∀ record, command.record = some record → kindRegistry.Keeps record) →
      SettledRecords kindRegistry builder.document → SettledRecords kindRegistry next.document := by
    intro builder next command hcommand hkeeps hsettled
    obtain ⟨after, happly, rfl⟩ := map_eq_ok.mp hcommand
    have hafter := hsettled.effect hkeeps
    rw [← effect_of_apply happly] at hafter
    exact hafter
  obtain ⟨builder, hsettled, hbuild⟩ := fromSnapshot_builder
    (fun builder => SettledRecords kindRegistry builder.document)
    (by
      intro _ _ record hrecord
      cases record <;> exact (nomatch hrecord.choose_spec))
    (fun builder node kept next hkept hnode hsettled =>
      hadd (.insertNode kept) hnode
        (fun record hrecord => Option.some.inj hrecord ▸ hregistry.nodes node kept hkept) hsettled)
    (fun builder shape kept next hkept hshape hsettled =>
      hadd (.insertShape kept) hshape
        (fun record hrecord =>
          Option.some.inj hrecord ▸ hregistry.shapes shape kept hkept) hsettled)
    (fun builder edge kept next hkept hedge hsettled =>
      hadd (.insertEdge kept) hedge
        (fun record hrecord =>
          Option.some.inj hrecord ▸ hregistry.edges edge kept hkept) hsettled) h
  rw [buildWithKindRegistry, check_bind_eq_ok, check_bind_eq_ok, pure_eq_ok] at hbuild
  exact hbuild.2.2 ▸ hsettled.pruneMissingRelations

end Read

variable {kindRegistry : CanvasKindRegistry} {document : CanvasDocument}

/-- Records that are kept are added to a builder as commands are applied to its
document. -/
theorem foldlM_add {ρ : Type} {normalize : ρ → Except CanvasSchemaError ρ}
    {add : CanvasDocumentBuilder → ρ → Except DocumentError CanvasDocumentBuilder}
    {insert : ρ → DocumentCommand}
    (hadd : ∀ builder record,
      add builder record = CanvasDocumentBuilder.mk <$> builder.document.apply (insert record))
    {records : List ρ} (hkept : ∀ record ∈ records, normalize record = .ok record)
    {builder : CanvasDocumentBuilder} (h : builder.document.Applies (records.map insert)) :
    records.foldlM (fun builder record => do add builder (← liftSchema (normalize record)))
        builder =
      .ok ⟨builder.document.effects (records.map insert)⟩ := by
  induction records generalizing builder with
  | nil => rfl
  | cons record rest ih =>
    obtain ⟨⟨after, happly⟩, hrest⟩ := applies_cons_iff.mp h
    have hfirst : (do add builder (← liftSchema (normalize record))) =
        Except.ok (CanvasDocumentBuilder.mk (builder.document.effect (insert record))) := by
      rw [bind_eq_ok]
      refine ⟨record, liftSchema_eq_ok.mpr (hkept record mem_cons_self), ?_⟩
      rw [hadd, happly, effect_of_apply happly]
      rfl
    rw [foldlM_cons, hfirst]
    exact @ih (fun other hmem => hkept other (mem_cons_of_mem _ hmem))
      ⟨builder.document.effect (insert record)⟩ hrest

variable {ν : Type} {stored : IndexMap String ν}

/-- Records of a map are inserted into a draft that has none of the kind. -/
theorem applies_inserts (insert : ν → DocumentCommand)
    (name : ν → String) (records : CanvasDocument → IndexMap String ν)
    (accepts : CanvasDocument → ν → Prop)
    (happly : ∀ draft record, (∃ after, apply draft (insert record) = .ok after) ↔
      (records draft).get (name record) = none ∧ accepts draft record)
    (hwrite : ∀ draft record, records (effect draft (insert record)) =
      (records draft).insert (name record) record)
    (haccepts : ∀ draft record other, accepts (effect draft (insert record)) other ↔
      accepts draft other) (hnamed : stored.NamedBy name) {draft : CanvasDocument}
    (hfresh : records draft = .empty)
    (hvalid : ∀ id record, stored.get id = some record → accepts draft record) :
    draft.Applies (stored.values.map insert) := by
  have hnames : stored.values.map name = stored.keys := by
    rw [IndexMap.values, map_map]
    apply map_congr_left
    intro entry hentry
    exact hnamed entry.1 entry.2 (get_eq_some_iff.mpr hentry)
  have hnodup : (stored.values.map name).Nodup := hnames.symm ▸ stored.nodup
  refine (applies_map_iff insert name (fun draft id => (records draft).containsKey id)
    (fun _ => false) accepts ?_ ?_ haccepts hnodup draft).mpr fun record hmem => ?_
  · intro draft record
    rw [happly, containsKey_eq_false_iff]
  · intro draft record id hne
    rw [hwrite, containsKey, get_insert, if_neg (Ne.symm hne), containsKey]
  · obtain ⟨id, hid⟩ := mem_values_iff.mp hmem
    exact ⟨by rw [hfresh]; rfl, hvalid id record hid⟩

variable {name : ν → String}

/-- Storing the values of a map under their names gives the map. -/
theorem foldl_insert_values {records : IndexMap String ν} (hnamed : records.NamedBy name) :
    records.values.foldl (fun stored record => stored.insert (name record) record) .empty =
      records := by
  rw [IndexMap.values, foldl_map, insertAll_eq_foldl_name]
  · exact records.insertAll_empty
  · exact fun entry hentry => hnamed entry.1 entry.2 (get_eq_some_iff.mpr hentry)

/-- Inserting the records of a map stores the map. -/
theorem effects_inserts {insert : ν → DocumentCommand}
    (withRecords : IndexMap String ν → CanvasDocument)
    (hwrite : ∀ records record, effect (withRecords records) (insert record) =
      withRecords (records.insert (name record) record)) (hnamed : stored.NamedBy name) :
    (withRecords .empty).effects (stored.values.map insert) = withRecords stored := by
  rw [effects, foldl_map]
  rw [@foldl_hom _ _ _ withRecords (fun records record => records.insert (name record) record)
    _ _ _ hwrite, foldl_insert_values hnamed]

/-- A valid document of the current format whose records are kept comes back from its
snapshot as it was. -/
theorem fromSnapshot_toSnapshot (hvalid : document.Valid)
    (hversion : document.formatVersion = CANVAS_DOCUMENT_FORMAT_VERSION)
    (hsettled : SettledRecords kindRegistry document) :
    fromSnapshotWithKindRegistry document.toSnapshot kindRegistry = .ok document := by
  have hkeyed := hvalid.wellKeyed
  have hrecords := hvalid.recordsValid
  let start : CanvasDocument := { document with nodes := .empty, shapes := .empty, edges := .empty }
  let withNodes : CanvasDocument := { document with shapes := .empty, edges := .empty }
  let withShapes : CanvasDocument := { document with edges := .empty }
  have hnodes : start.Applies (document.nodes.values.map .insertNode) := by
    refine applies_inserts .insertNode CanvasNode.id (·.nodes)
      (fun _ node => validateNode node = .ok ()) ?_ (fun _ _ => rfl) (fun _ _ _ => Iff.rfl)
      hkeyed.nodes rfl hrecords.nodes
    intro draft node
    simp [apply_insertNode_ok_iff]
  have hshapes : withNodes.Applies (document.shapes.values.map .insertShape) := by
    refine applies_inserts .insertShape CanvasShape.id (·.shapes) (fun _ _ => True) ?_
      (fun _ _ => rfl) (fun _ _ _ => Iff.rfl) hkeyed.shapes rfl fun _ _ _ => trivial
    intro draft shape
    simp [apply_insertShape_ok_iff]
  have hedges : withShapes.Applies (document.edges.values.map .insertEdge) := by
    refine applies_inserts .insertEdge CanvasEdge.id (·.edges)
      (fun draft edge => draft.validateEdge edge = .ok ()) ?_ (fun _ _ => rfl) ?_ hkeyed.edges rfl
      ?_
    · intro draft edge
      simp [apply_insertEdge_ok_iff]
    · intro draft edge other
      have hsame : (effect draft (.insertEdge edge)).validateEdge other =
          draft.validateEdge other := validateEdge_congr draft rfl rfl
      rw [hsame]
    · intro id edge hget
      exact hrecords.edges id edge hget
  have hnodesEffect : start.effects (document.nodes.values.map .insertNode) = withNodes :=
    effects_inserts (fun nodes => { start with nodes }) (fun _ _ => rfl) hkeyed.nodes
  have hshapesEffect : withNodes.effects (document.shapes.values.map .insertShape) = withShapes :=
    effects_inserts (fun shapes => { withNodes with shapes }) (fun _ _ => rfl) hkeyed.shapes
  have hedgesEffect : withShapes.effects (document.edges.values.map .insertEdge) = document :=
    effects_inserts (fun edges => { withShapes with edges }) (fun _ _ => rfl) hkeyed.edges
  have hmigrate : migrateCanvasSnapshot document.toSnapshot = .ok document.toSnapshot := by
    rw [toSnapshot, hversion]
    rfl
  have hbuild : buildWithKindRegistry ⟨document⟩ kindRegistry = .ok document := by
    rw [buildWithKindRegistry,
      pruneMissingRelations_of_wellFormed hvalid.wellFormed, check_bind_eq_ok, check_bind_eq_ok]
    exact ⟨(validateRelations_ok_iff document).mpr hvalid.wellFormed,
      liftSchema_eq_ok.mpr hsettled.validateDocument, rfl⟩
  have hnodesKept : ∀ node ∈ document.nodes.values, kindRegistry.normalizeNode node = .ok node :=
    fun node hmem => hsettled (.node node) (mem_values_iff.mp hmem)
  have hshapesKept : ∀ shape ∈ document.shapes.values,
      kindRegistry.normalizeShape shape = .ok shape :=
    fun shape hmem => hsettled (.shape shape) (mem_values_iff.mp hmem)
  have hedgesKept : ∀ edge ∈ document.edges.values, kindRegistry.normalizeEdge edge = .ok edge :=
    fun edge hmem => hsettled (.edge edge) (mem_values_iff.mp hmem)
  rw [fromSnapshotWithKindRegistry, bind_eq_ok]
  refine ⟨_, hmigrate, bind_eq_ok.mpr ⟨⟨withNodes⟩, ?_, bind_eq_ok.mpr ⟨⟨withShapes⟩, ?_,
    bind_eq_ok.mpr ⟨⟨document⟩, ?_, hbuild⟩⟩⟩⟩
  · rw [← hnodesEffect]
    exact @foldlM_add _ _ CanvasDocumentBuilder.addNode .insertNode (fun _ _ => rfl) _ hnodesKept
      ⟨start⟩ hnodes
  · rw [← hshapesEffect]
    exact @foldlM_add _ _ CanvasDocumentBuilder.addShape .insertShape (fun _ _ => rfl) _ hshapesKept
      ⟨withNodes⟩ hshapes
  · nth_rewrite 2 [← hedgesEffect]
    exact @foldlM_add _ _ CanvasDocumentBuilder.addEdge .insertEdge (fun _ _ => rfl) _ hedgesKept
      ⟨withShapes⟩ hedges

end CanvasDocument

end OpenGpui.Canvas
