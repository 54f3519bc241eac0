/-
Durability of a canvas.  What the byte store loads is like the document that was
committed last, and the cursor is that of the last entry.  Mutations that come in the
middle of a gesture are logged against the wrong document, and the commit of a
gesture that changes bindings is logged without them.
-/
import OpenGpui.Canvas.EditorHistory
import OpenGpui.Canvas.PersistenceFailure
import OpenGpui.Canvas.PersistenceLoad

namespace OpenGpui.Canvas

open Checked CanvasDocument CanvasMutationJournal Except
open Bool CanvasEditor CanvasGestureSession CanvasKindRegistry CanvasLogEntry
  CanvasPersistenceCodec CanvasStore EditorWitness Option

section Within

variable (record : CanvasRecord → Prop) (data : CanvasValue → Prop)

/-- A valid document of the current format with such records and such metadata. -/
structure CanvasDocument.Within (document : CanvasDocument) : Prop where
  valid : document.Valid
  formatVersion : document.formatVersion = CANVAS_DOCUMENT_FORMAT_VERSION
  records : EveryRecord record document
  metadata : data document.metadata

/-- A transaction that writes such records. -/
structure CanvasTransaction.Within (transaction : CanvasTransaction) : Prop where
  commands : EveryWritten record transaction.commands
  metadata : data transaction.metadata

def CanvasOperationBatch.Within {Change : Type} (change : Change → Prop)
    (batch : CanvasOperationBatch Change) : Prop :=
  data batch.transactionMetadata ∧ ∀ operation ∈ batch.operations, change operation.change

structure CanvasLogEntry.Within (entry : CanvasLogEntry) : Prop where
  transaction : entry.transaction.Within record data
  records : ∀ batch, entry.committedRecordOperationBatch = some batch →
    batch.Within data fun change => ∀ written, change = .upsert written → record written
  relations : ∀ batch, entry.committedRelationOperationBatch = some batch →
    batch.Within data fun _ => True

/-- The snapshot of such a document. -/
def CanvasSnapshot.Within (snapshot : CanvasSnapshot) : Prop :=
  ∃ document : CanvasDocument, document.Within record data ∧ snapshot = document.toSnapshot

/-- What the codec writes with such records and such metadata is read back as it was. -/
structure ReadsBack {Bytes CodecError : Type} (codec : CanvasPersistenceCodec Bytes CodecError) :
    Prop where
  empty : data .empty
  checkpoints : ∀ checkpoint bytes, checkpoint.snapshot.Within record data →
    codec.encodeCheckpoint checkpoint = .ok bytes → codec.decodeCheckpoint bytes = .ok checkpoint
  logEntries : ∀ entry bytes, entry.Within record data →
    codec.encodeLogEntry entry = .ok bytes → codec.decodeLogEntry bytes = .ok entry

end Within

section Prepared

variable {record : CanvasRecord → Prop} {data : CanvasValue → Prop} {document : CanvasDocument}
  {transaction : CanvasTransaction} {registry : CanvasKindRegistry}
  {prepared : CanvasPreparedMutation}

theorem prepare_recordChanges
    (h : prepareWithKindRegistry document transaction registry = .ok prepared) :
    ∃ diff, prepared.committed.recordChanges = recordChangesFromDiff prepared.document diff := by
  rw [prepareWithKindRegistry, bind_eq_ok] at h
  obtain ⟨_, _, h⟩ := h
  rw [bind_eq_ok] at h
  obtain ⟨_, _, h⟩ := h
  rw [bind_eq_ok] at h
  obtain ⟨_, _, h⟩ := h
  rw [check_bind_eq_ok, check_bind_eq_ok, bind_eq_ok] at h
  obtain ⟨_, _, _, _, h⟩ := h
  rw [pure_eq_ok] at h
  subst h
  exact ⟨_, rfl⟩

/-- The record changes of a commit write records of its document. -/
theorem upsert_of_recordChanges {diff : CanvasDocumentDiff} (h : EveryRecord record document) :
    ∀ change ∈ recordChangesFromDiff document diff, ∀ written,
      change = .upsert written → record written := by
  have hstored : ∀ id written, recordFromDocument document id = some written → record written := by
    intro id written hwritten
    apply h
    cases id with
    | node id =>
      obtain ⟨node, hnode, rfl⟩ := map_eq_some_iff.mp hwritten
      exact ⟨id, hnode⟩
    | edge id =>
      obtain ⟨edge, hedge, rfl⟩ := map_eq_some_iff.mp hwritten
      exact ⟨id, hedge⟩
    | shape id =>
      obtain ⟨shape, hshape, rfl⟩ := map_eq_some_iff.mp hwritten
      exact ⟨id, hshape⟩
  rintro change hmem written rfl
  simp only [recordChangesFromDiff, List.mem_append, List.mem_map, List.mem_filterMap] at hmem
  rcases hmem with (⟨_, ⟨id, _, hid⟩, heq⟩ | ⟨_, ⟨id, _, hid⟩, heq⟩) | ⟨_, _, heq⟩
  · exact CanvasRecordChange.upsert.inj heq ▸ hstored id _ hid
  · exact CanvasRecordChange.upsert.inj heq ▸ hstored id _ hid
  · cases heq

theorem completeInverse_metadata {previous current : CanvasDocument}
    {inverse completed : CanvasTransaction}
    (h : completeInverseRelationCommands previous current inverse = .ok completed) :
    completed.metadata = inverse.metadata := by
  rw [completeInverseRelationCommands, bind_eq_ok] at h
  obtain ⟨_, _, h⟩ := h
  rw [check_bind_eq_ok] at h
  obtain ⟨_, h⟩ := h
  dsimp only at h
  split at h
  · rw [pure_eq_ok] at h
    rw [h]
  · rw [bind_eq_ok] at h
    obtain ⟨_, _, h⟩ := h
    rw [check_bind_eq_ok, pure_eq_ok] at h
    rw [← h.2]

/-- A mutation of such records leads to a document, an inverse and an entry with such
records. -/
theorem CanvasDocument.Within.mutated (h : document.Within record data) (hempty : data .empty)
    (hregistry : registry.Establishes record record) (hwritten : transaction.Within record data)
    (hprepared : prepareWithKindRegistry document transaction registry = .ok prepared) :
    prepared.document.Within record data ∧ prepared.committed.inverse.Within record data ∧
      ∀ sequence, (fromCommittedMutation sequence prepared.committed).Within record data := by
  obtain ⟨hrecords, hinverse⟩ := prepare_everyRecord h.valid h.records
    (fun _ hnormalized => hregistry.everyWritten hwritten.commands hnormalized) hprepared
  obtain ⟨hversion, hmetadata⟩ := prepare_metadata hprepared
  obtain ⟨diff, hchanges⟩ := prepare_recordChanges hprepared
  obtain ⟨normalized, _, _, hnormalized, _, _, _, _, _, htransaction, hcomplete, _⟩ :=
    prepare_ok_steps hprepared
  have hcommands := hregistry.everyWritten hwritten.commands hnormalized
  have hdata : data normalized.metadata :=
    normalizeTransaction_metadata hnormalized ▸ hwritten.metadata
  refine ⟨⟨prepare_valid h.valid hprepared, hversion.trans h.formatVersion, hrecords,
    hmetadata ▸ h.metadata⟩, ⟨hinverse, ?_⟩, fun sequence => ⟨?_, ?_, ?_⟩⟩
  · rw [completeInverse_metadata hcomplete]
    exact hempty
  · rw [fromCommittedMutation, htransaction]
    exact ⟨hcommands, hdata⟩
  · rintro batch hbatch
    obtain rfl := some.inj hbatch
    refine ⟨?_, fun operation hoperation => ?_⟩
    · rw [htransaction]
      exact hdata
    · obtain ⟨entry, hentry, rfl⟩ := List.mem_map.mp hoperation
      have hmem := List.fst_mem_of_mem_zipIdx hentry
      rw [hchanges] at hmem
      exact upsert_of_recordChanges hrecords entry.1 hmem
  · rintro batch hbatch
    obtain rfl := some.inj hbatch
    refine ⟨?_, fun _ _ => trivial⟩
    rw [htransaction]
    exact hdata

/-- What was committed applies again, whatever registry it went through. -/
theorem prepare_committed (hvalid : document.Valid)
    (h : prepareWithKindRegistry document transaction registry = .ok prepared) :
    ∃ replayed, prepareWithKindRegistry document prepared.committed.transaction .openRegistry =
        .ok replayed ∧ replayed.document = prepared.document := by
  obtain ⟨normalized, _, draft, hnormalized, _, happly, hdocument, hrelations, hschema,
    htransaction, _⟩ := prepare_ok_steps h
  have hintegrity : draft.pruneMissingRelations.validateIntegrity = .ok () := by
    rw [← hdocument]
    exact (prepare_valid hvalid h).integrity
  rw [hdocument] at hschema
  have hreversible := (prepare_ok_iff hvalid hnormalized happly hintegrity hschema).mp ⟨_, h⟩
  have hopen := openRegistry_normalizeTransaction normalized
  obtain ⟨replayed, hreplayed⟩ := (prepare_ok_iff hvalid hopen happly hintegrity
    (openRegistry_validateDocument _)).mpr hreversible
  rw [htransaction]
  refine ⟨replayed, hreplayed, ?_⟩
  obtain ⟨_, _, _, hsame, _, hagain, hresult, _⟩ := prepare_ok_steps hreplayed
  rw [hopen, ok.injEq] at hsame
  subst hsame
  rw [happly, ok.injEq] at hagain
  rw [hresult, hdocument, hagain]

/-- What was committed applies to a like document, with a like result. -/
theorem commit_committed {other : CanvasDocument} (halike : document.AlikeDocuments other)
    (hvalid : document.Valid) (hother : other.Valid)
    (h : prepareWithKindRegistry document transaction registry = .ok prepared) :
    ∃ committed after, commit other prepared.committed.transaction = (.ok committed, after) ∧
      prepared.document.AlikeDocuments after := by
  obtain ⟨replayed, hreplayed, hsame⟩ := prepare_committed hvalid h
  obtain ⟨counterpart, hcounterpart, hresult⟩ := prepare_alike halike hvalid hother
    (fun _ _ => openRegistry_validateDocument _) hreplayed
  exact ⟨counterpart.committed, counterpart.document, commit_ok_iff.mpr hcounterpart,
    hsame ▸ hresult⟩

end Prepared

section Stores

variable {Bytes CodecError : Type} {codec : CanvasPersistenceCodec Bytes CodecError}
  {record : CanvasRecord → Prop} {data : CanvasValue → Prop}
  {store next : MemoryCanvasPersistenceByteStore Bytes} {cursor : CanvasPersistenceCursor}
  {document : CanvasDocument}

/-- The byte store loads a document like this one, and the cursor. -/
def Stores (codec : CanvasPersistenceCodec Bytes CodecError)
    (store : MemoryCanvasPersistenceByteStore Bytes) (cursor : CanvasPersistenceCursor)
    (document : CanvasDocument) : Prop :=
  ∃ loaded checkpoint entries start, Loads codec store loaded cursor checkpoint entries start ∧
    loaded.AlikeDocuments document

theorem Stores.congr (h : Stores codec store cursor document) {other : CanvasDocument}
    (halike : document.AlikeDocuments other) : Stores codec store cursor other := by
  obtain ⟨loaded, checkpoint, entries, start, hloads, hloaded⟩ := h
  exact ⟨loaded, checkpoint, entries, start, hloads, hloaded.trans halike⟩

/-- An entry can be appended unless the cursor would wrap around. -/
def CanvasPersistenceCursor.HasRoom (cursor : CanvasPersistenceCursor) : Prop :=
  cursor.sequence < cursor.nextSequence

instance (cursor : CanvasPersistenceCursor) : Decidable cursor.HasRoom :=
  inferInstanceAs (Decidable (cursor.sequence < cursor.nextSequence))

variable {fails : Bool}

/-- An entry that is appended is loaded with the others. -/
theorem Stores.append (hcodec : ReadsBack record data codec)
    (h : Stores codec store cursor document) (hdocument : document.Within record data)
    {registry : CanvasKindRegistry} (hregistry : registry.Establishes record record)
    {transaction : CanvasTransaction} (hwritten : transaction.Within record data)
    (hroom : cursor.HasRoom) {prepared : CanvasPreparedMutation}
    (hprepared : prepareWithKindRegistry document transaction registry = .ok prepared)
    (happend : codec.appendLogEntry store
      (.fromCommittedMutation cursor.nextSequence prepared.committed) fails = .ok next) :
    Stores codec next cursor.advance prepared.document := by
  obtain ⟨loaded, checkpoint, entries, start, hloads, halike⟩ := h
  obtain ⟨_, _, hentry⟩ := hdocument.mutated hcodec.empty hregistry hwritten hprepared
  obtain ⟨committed, after, hcommit, hafter⟩ :=
    commit_committed halike.symm hdocument.valid hloads.valid.1 hprepared
  rw [appendLogEntry, bind_eq_ok] at happend
  obtain ⟨bytes, hbytes, happend⟩ := happend
  rw [guard_eq_ok, ok.injEq] at happend
  obtain ⟨_, rfl⟩ := happend
  have hdecode := hcodec.logEntries _ bytes (hentry cursor.nextSequence) (mapError_eq_ok.mp hbytes)
  have hlater : cursor.sequence <
      (fromCommittedMutation cursor.nextSequence prepared.committed).sequence := hroom
  exact ⟨after, checkpoint, _, start, hloads.append hlater hdecode hcommit, hafter.symm⟩

/-- A checkpoint is loaded as the document, also when the log is compacted through it. -/
theorem Stores.checkpoint (hcodec : ReadsBack record data codec)
    (h : Stores codec store cursor document) (hdocument : document.Within record data)
    (hsave : codec.saveCheckpoint store (.new cursor.sequence document) fails = .ok next) :
    Stores codec next cursor document ∧
      Stores codec (next.compactLogEntryBytes cursor.sequence) cursor document := by
  obtain ⟨loaded, checkpoint, entries, start, hloads, _⟩ := h
  obtain ⟨_, hstored⟩ := hloads.sequence_le
  rw [saveCheckpoint, bind_eq_ok] at hsave
  obtain ⟨bytes, hbytes, hsave⟩ := hsave
  rw [guard_eq_ok, ok.injEq] at hsave
  obtain ⟨_, rfl⟩ := hsave
  have hdecode := hcodec.checkpoints (.new cursor.sequence document) bytes
    ⟨document, hdocument, rfl⟩ (mapError_eq_ok.mp hbytes)
  have hsnapshot : fromSnapshot document.toSnapshot = .ok document :=
    fromSnapshot_toSnapshot hdocument.valid hdocument.formatVersion
      fun kept _ => openRegistry_keeps kept
  refine ⟨⟨document, _, [], document, loads_checkpoint hdecode hsnapshot rfl hstored, .refl _⟩,
    ⟨document, _, [], document, loads_checkpoint hdecode hsnapshot rfl ?_, .refl _⟩⟩
  exact fun encoded hmem => hstored encoded (List.mem_filter.mp hmem).1

end Stores

namespace CanvasHistory

/-- Every entry of a history has the property. -/
def Every (property : CanvasTransaction → Prop) (history : CanvasHistory) : Prop :=
  (∀ transaction ∈ history.undoStack, property transaction) ∧
    ∀ transaction ∈ history.redoStack, property transaction

namespace Every

variable {property : CanvasTransaction → Prop} {history : CanvasHistory}
  {transaction : CanvasTransaction}

variable (h : history.Every property)

include h

theorem pushUndo (hpushed : property transaction) :
    (history.pushUndo transaction).Every property := by
  rw [CanvasHistory.pushUndo]
  by_cases hempty : transaction.isEmpty = true
  · rw [if_pos hempty]
    exact h
  · rw [if_neg hempty]
    refine ⟨List.forall_mem_cons.mpr ⟨hpushed, h.1⟩, ?_⟩
    exact fun other hmem => absurd hmem List.not_mem_nil

theorem pushRedo (hpushed : property transaction) :
    (history.pushRedo transaction).Every property := by
  rw [CanvasHistory.pushRedo]
  by_cases hempty : transaction.isEmpty = true
  · rw [if_pos hempty]
    exact h
  · rw [if_neg hempty]
    exact ⟨h.1, List.forall_mem_cons.mpr ⟨hpushed, h.2⟩⟩

theorem popUndo : history.popUndo.Every property :=
  ⟨fun other hmem => h.1 other (List.mem_of_mem_tail hmem), h.2⟩

theorem popRedo : history.popRedo.Every property :=
  ⟨h.1, fun other hmem => h.2 other (List.mem_of_mem_tail hmem)⟩

end Every

end CanvasHistory

namespace CanvasStore

/-- The store takes over the prepared document, and its history changes by entries
of the property. -/
structure TakesOver (property : CanvasTransaction → Prop)
    (apply : CanvasStore → CanvasPreparedMutation → Option CanvasStoreChange × CanvasStore)
    (store : CanvasStore) (prepared : CanvasPreparedMutation) : Prop where
  document : (apply store prepared).2.document = prepared.document
  kindRegistry : (apply store prepared).2.kindRegistry = store.kindRegistry
  history : store.history.Every property → property prepared.committed.inverse →
    (apply store prepared).2.history.Every property

variable {property : CanvasTransaction → Prop} (store : CanvasStore)
  (prepared : CanvasPreparedMutation)

theorem applyPreparedTransaction_takesOver :
    TakesOver property applyPreparedTransaction store prepared := by
  refine ⟨?_, ?_, fun h hinverse => ?_⟩ <;> rw [applyPreparedTransaction_snd]
  split
  · exact h
  · exact h.pushUndo hinverse

theorem applyPreparedUndo_takesOver : TakesOver property applyPreparedUndo store prepared := by
  refine ⟨?_, ?_, fun h hinverse => ?_⟩ <;> rw [applyPreparedUndo_snd]
  split
  · exact h.popUndo
  · exact h.popUndo.pushRedo hinverse

theorem applyPreparedRedo_takesOver : TakesOver property applyPreparedRedo store prepared := by
  refine ⟨?_, ?_, fun h hinverse => ?_⟩ <;> rw [applyPreparedRedo_snd]
  split
  · exact h.popRedo
  · exact h.popRedo.pushUndo hinverse

end CanvasStore

/-- The registry changes nothing in the commands between two documents. -/
def CanvasKindRegistry.KeepsBetween (registry : CanvasKindRegistry)
    (previous target : CanvasDocument) : Prop :=
  registry.normalizeTransaction (transactionBetween previous target) =
    .ok (transactionBetween previous target)

/-- The document that was committed last: the baseline of the gesture that is under
way. -/
def CanvasEditor.committedDocument (editor : CanvasEditor) : CanvasDocument :=
  editor.gesture.elim editor.document (·.baseline)

namespace PersistentEditor

variable {Bytes CodecError : Type} {codec : CanvasPersistenceCodec Bytes CodecError}
  {record : CanvasRecord → Prop} {data : CanvasValue → Prop} {state : PersistentEditor Bytes}

/-- The calls that leave a canvas that can be loaded, where the codec reads back
`record` and `data`.  Mutations and checkpoints come while no gesture is under way and
write such records, and the registry leaves the entry of a step in the history equal; a
gesture ends with the bindings it began with, and with records that the registry keeps. -/
def Permits (record : CanvasRecord → Prop) (data : CanvasValue → Prop)
    (state : PersistentEditor Bytes) : PersistentCall → Prop
  | .effect (.applyTransaction transaction) _ => transaction.isEmpty = true ∨
      state.editor.gesture = none ∧ state.cursor.HasRoom ∧ transaction.Within record data
  | .effect .beginGesture _ => True
  | .effect (.updateGesture transaction) _ =>
    transaction.isEmpty = true ∨ transaction.Within record data
  | .effect .commitGesture _ => ∀ gesture, state.editor.gesture = some gesture →
      state.cursor.HasRoom ∧ BindingsStay gesture.baseline state.editor.document ∧
        state.editor.kindRegistry.KeepsBetween gesture.baseline state.editor.document
  | .effect .cancelGesture _ => ∀ gesture, state.editor.gesture = some gesture →
      BindingsStay state.editor.document gesture.baseline ∧
        state.editor.kindRegistry.KeepsBetween state.editor.document gesture.baseline
  | .undo _ => state.editor.store.history.undoStack = [] ∨
      (state.editor.gesture = none ∧ state.cursor.HasRoom) ∧
        state.editor.store.nextEntryStays .undo = true
  | .redo _ => state.editor.store.history.redoStack = [] ∨
      (state.editor.gesture = none ∧ state.cursor.HasRoom) ∧
        state.editor.store.nextEntryStays .redo = true
  | .saveCheckpoint _ _ => state.editor.gesture = none

/-- The invariant of a persistent editor. -/
structure Durable (codec : CanvasPersistenceCodec Bytes CodecError)
    (record : CanvasRecord → Prop) (data : CanvasValue → Prop) (state : PersistentEditor Bytes) :
    Prop where
  registry : state.editor.kindRegistry.Establishes record record
  stores : Stores codec state.store state.cursor state.editor.committedDocument
  committed : state.editor.committedDocument.Within record data
  document : state.editor.document.Within record data
  metadata : state.editor.committedDocument.metadata = state.editor.document.metadata
  history : state.editor.store.history.Every (CanvasTransaction.Within record data)

/-- Outside of a gesture the document is the committed one. -/
theorem durable_none {store : CanvasStore} {bytes : MemoryCanvasPersistenceByteStore Bytes}
    {cursor : CanvasPersistenceCursor} :
    Durable codec record data ⟨⟨store, none⟩, bytes, cursor⟩ ↔
      store.kindRegistry.Establishes record record ∧ Stores codec bytes cursor store.document ∧
        store.document.Within record data ∧
        store.history.Every (CanvasTransaction.Within record data) := by
  constructor
  · intro h
    exact ⟨h.registry, h.stores, h.document, h.history⟩
  · rintro ⟨hregistry, hstores, hdocument, hhistory⟩
    exact ⟨hregistry, hstores, hdocument, hdocument, rfl, hhistory⟩

section Mutations

variable {transaction : CanvasTransaction} {prepared : CanvasPreparedMutation}

theorem appendCommittedLogEntry_eq_ok {committed : CanvasCommittedMutation} {fails : Bool}
    {store : MemoryCanvasPersistenceByteStore Bytes} :
    state.appendCommittedLogEntry codec committed fails = .ok store ↔
      codec.appendLogEntry state.store
        (.fromCommittedMutation state.cursor.nextSequence committed) fails = .ok store :=
  mapError_eq_ok

variable (hcodec : ReadsBack record data codec)

include hcodec

variable (h : Durable codec record data state)

include h

variable {apply : CanvasStore → CanvasPreparedMutation → Option CanvasStoreChange × CanvasStore}

/-- A mutation outside of a gesture is logged before it is taken over. -/
theorem appendThenApply_durable (hgesture : state.editor.gesture = none)
    (hroom : state.cursor.HasRoom) (hwritten : transaction.Within record data)
    (hprepared : state.editor.store.prepareTransaction transaction = .ok prepared)
    (happly : CanvasStore.TakesOver (CanvasTransaction.Within record data) apply
      state.editor.store prepared) (fails : Bool) :
    Durable codec record data
      (state.appendThenApplyPreparedMutation codec prepared apply fails).2 := by
  obtain ⟨⟨store, gesture⟩, bytes, cursor⟩ := state
  obtain rfl : gesture = none := hgesture
  obtain ⟨hregistry, hstores, hdocument, hhistory⟩ := durable_none.mp h
  obtain ⟨hresult, hinverse, _⟩ := hdocument.mutated hcodec.empty hregistry hwritten hprepared
  have hnext : ∀ {bytes : MemoryCanvasPersistenceByteStore Bytes}
      {cursor : CanvasPersistenceCursor}, Stores codec bytes cursor prepared.document →
      Durable codec record data ⟨⟨(apply store prepared).2, none⟩, bytes, cursor⟩ := by
    intro bytes cursor hloads
    refine durable_none.mpr ⟨?_, ?_, ?_, happly.history hhistory hinverse⟩
    · rw [happly.kindRegistry]
      exact hregistry
    · rw [happly.document]
      exact hloads
    · rw [happly.document]
      exact hresult
  rw [appendThenApplyPreparedMutation]
  by_cases hdiff : prepared.committed.diff.isEmpty = true
  · rw [if_pos hdiff]
    exact hnext (hstores.congr (alike_of_prepare_diff hdocument.valid hprepared hdiff))
  · rw [if_neg hdiff]
    cases happend : appendCommittedLogEntry codec ⟨⟨store, none⟩, bytes, cursor⟩
        prepared.committed fails with
    | error error => exact h
    | ok written =>
      exact hnext (hstores.append hcodec hdocument hregistry hwritten hroom hprepared
        (appendCommittedLogEntry_eq_ok.mp happend))

theorem applyPersistentTransaction_durable (hpermits : transaction.isEmpty = true ∨
      state.editor.gesture = none ∧ state.cursor.HasRoom ∧ transaction.Within record data)
    (fails : Bool) :
    Durable codec record data (state.applyPersistentTransaction codec transaction fails).2 := by
  rw [applyPersistentTransaction]
  by_cases hempty : transaction.isEmpty = true
  · rw [if_pos hempty]
    exact h
  · rw [if_neg hempty]
    obtain ⟨hgesture, hroom, hwritten⟩ := hpermits.resolve_left hempty
    cases hprepare : state.editor.store.prepareTransaction transaction with
    | error error => exact h
    | ok prepared =>
      exact appendThenApply_durable hcodec h hgesture hroom hwritten hprepare
        (applyPreparedTransaction_takesOver _ _) fails

/-- A step in the history commits the top entry of a stack. -/
theorem replayPersistentTransaction_durable {stack : List CanvasTransaction}
    (hentries : ∀ transaction ∈ stack, transaction.Within record data)
    (hpermits : stack = [] ∨ state.editor.gesture = none ∧ state.cursor.HasRoom)
    {result : Except DocumentError (Option CanvasPreparedMutation)}
    (hresult : result = match stack.head? with
      | none => .ok none
      | some transaction => some <$> state.editor.store.prepareTransaction transaction)
    (happly : ∀ prepared, CanvasStore.TakesOver (CanvasTransaction.Within record data) apply
      state.editor.store prepared) (fails : Bool) :
    Durable codec record data (state.replayPersistentTransaction codec result apply fails).2 := by
  subst hresult
  cases stack with
  | nil => exact h
  | cons transaction rest =>
    obtain ⟨hgesture, hroom⟩ := hpermits.resolve_left (List.cons_ne_nil transaction rest)
    rw [List.head?_cons]
    dsimp only
    cases hprepare : state.editor.store.prepareTransaction transaction with
    | error error => exact h
    | ok prepared =>
      exact appendThenApply_durable hcodec h hgesture hroom
        (hentries transaction List.mem_cons_self) hprepare (happly prepared) fails

/-- A checkpoint changes neither the editor nor the cursor. -/
theorem saveCanvasCheckpoint_durable (hgesture : state.editor.gesture = none)
    (saveFails compactFails : Bool) :
    Durable codec record data (state.saveCanvasCheckpoint codec saveFails compactFails).2 := by
  obtain ⟨⟨store, gesture⟩, bytes, cursor⟩ := state
  obtain rfl : gesture = none := hgesture
  obtain ⟨hregistry, hstores, hdocument, hhistory⟩ := durable_none.mp h
  rw [saveCanvasCheckpoint]
  cases hsave : codec.saveCheckpoint bytes
      (.new cursor.sequence (CanvasEditor.document ⟨store, none⟩)) saveFails with
  | error error => exact h
  | ok written =>
    obtain ⟨hsaved, hcompacted⟩ := hstores.checkpoint hcodec hdocument hsave
    cases compactFails with
    | true => exact durable_none.mpr ⟨hregistry, hsaved, hdocument, hhistory⟩
    | false => exact durable_none.mpr ⟨hregistry, hcompacted, hdocument, hhistory⟩

end Mutations

section Gestures

variable {store : CanvasStore} {gesture : CanvasGestureSession}
  {bytes : MemoryCanvasPersistenceByteStore Bytes} {cursor : CanvasPersistenceCursor}

theorem beginGesture_durable (h : Durable codec record data state) :
    Durable codec record data { state with editor := state.editor.beginGesture } := by
  obtain ⟨⟨store, gesture⟩, bytes, cursor⟩ := state
  cases gesture with
  | some gesture => exact h
  | none => exact ⟨h.registry, h.stores, h.committed, h.document, rfl, h.history⟩

variable (hcodec : ReadsBack record data codec)

include hcodec

/-- An update changes the document alone. -/
theorem updateGesture_durable
    (h : Durable codec record data state) {transaction : CanvasTransaction}
    (hpermits : transaction.isEmpty = true ∨ transaction.Within record data) :
    Durable codec record data
      { state with editor := (state.editor.updateGesture transaction).2 } := by
  rw [updateGesture]
  by_cases hempty : transaction.isEmpty = true
  · rw [if_pos hempty]
    exact h
  rw [if_neg hempty, applyTransientTransaction, if_neg hempty]
  cases hprepare : state.editor.store.prepareTransaction transaction with
  | error error => exact h
  | ok prepared =>
    obtain ⟨hresult, _⟩ := h.document.mutated hcodec.empty h.registry
      (hpermits.resolve_left hempty) hprepare
    have hmetadata := h.metadata.trans (prepare_metadata hprepare).2.symm
    obtain ⟨⟨store, gesture⟩, bytes, cursor⟩ := state
    cases gesture with
    | some gesture | none =>
      exact ⟨h.registry, h.stores, h.committed, hresult, hmetadata, h.history⟩

theorem between_within (previous : CanvasDocument)
    {target : CanvasDocument} (htarget : target.Within record data) :
    (transactionBetween previous target).Within record data :=
  ⟨everyWritten_transactionBetween previous target htarget.records, hcodec.empty⟩

/-- The commit of a gesture is logged as the commands from the baseline to its
document. -/
theorem applyPersistentGestureCommit_durable (h : Durable codec record data state)
    (hpermits : ∀ gesture, state.editor.gesture = some gesture →
      state.cursor.HasRoom ∧ BindingsStay gesture.baseline state.editor.document ∧
        state.editor.kindRegistry.KeepsBetween gesture.baseline state.editor.document)
    (fails : Bool) :
    Durable codec record data (state.applyPersistentGestureCommit codec fails).2 := by
  obtain ⟨⟨store, gesture⟩, bytes, cursor⟩ := state
  cases gesture with
  | none => exact h
  | some gesture =>
    obtain ⟨hroom, hbindings, hkept⟩ := hpermits gesture rfl
    have hstores : Stores codec bytes cursor gesture.baseline := h.stores
    have hbase : gesture.baseline.Within record data := h.committed
    have hdocument : store.document.Within record data := h.document
    have hversion := hbase.formatVersion.trans hdocument.formatVersion.symm
    rw [applyPersistentGestureCommit, prepareGestureCommit]
    dsimp only
    by_cases hempty : (transactionBetween gesture.baseline store.document).isEmpty = true
    · have hnothing : gesture.prepareCommitWithKindRegistry store.document store.kindRegistry =
          .ok none := prepareCommit_of_isEmpty hempty
      have halike := alike_of_between_isEmpty hbase.valid hdocument.valid hversion h.metadata
        hbindings hempty
      have hcommit : (commitGesture ⟨store, some gesture⟩).2 = ⟨store, none⟩ := by
        rw [commitGesture, prepareGestureCommit]
        dsimp only
        rw [CanvasEditor.document, CanvasEditor.kindRegistry, hnothing]
      rw [CanvasEditor.document, CanvasEditor.kindRegistry, hnothing]
      dsimp only [applyToolEffect, CanvasEditor.applyEditorAction]
      rw [hcommit]
      exact durable_none.mpr ⟨h.registry, hstores.congr halike, hdocument, h.history⟩
    · cases hprepare : gesture.prepareCommitWithKindRegistry
          (CanvasEditor.document ⟨store, some gesture⟩)
          (CanvasEditor.kindRegistry ⟨store, some gesture⟩) with
      | error error => exact h
      | ok prepared =>
        obtain ⟨mutation, hmutation, rfl⟩ := (prepareCommit_ok_iff hempty).mp hprepare
        have halike := alike_of_prepare_between hbase.valid hdocument.valid hkept hversion
          h.metadata hbindings hmutation
        have hwritten := between_within hcodec gesture.baseline hdocument
        obtain ⟨_, hinverse, _⟩ := hbase.mutated hcodec.empty h.registry hwritten hmutation
        dsimp only [applyPreparedGestureStoreChange, applyPreparedGestureCommit]
        by_cases hdiff : mutation.committed.diff.isEmpty = true
        · rw [if_pos hdiff, if_pos hdiff]
          refine durable_none.mpr ⟨h.registry, hstores.congr ?_, hdocument, h.history⟩
          exact (alike_of_prepare_diff hbase.valid hmutation hdiff).trans halike
        · rw [if_neg hdiff, if_neg hdiff]
          cases happend : appendCommittedLogEntry codec
              ⟨⟨store, some gesture⟩, bytes, cursor⟩ mutation.committed fails with
          | error error => exact h
          | ok next =>
            have hlogged := hstores.append hcodec hbase h.registry hwritten hroom hmutation
              (appendCommittedLogEntry_eq_ok.mp happend)
            exact durable_none.mpr ⟨h.registry, hlogged.congr halike, hdocument,
              h.history.pushUndo hinverse⟩

/-- A cancelled gesture leaves a document like the baseline, and nothing is written. -/
theorem cancelGesture_durable (h : Durable codec record data state)
    (hpermits : ∀ gesture, state.editor.gesture = some gesture →
      BindingsStay state.editor.document gesture.baseline ∧
        state.editor.kindRegistry.KeepsBetween state.editor.document gesture.baseline) :
    Durable codec record data { state with editor := state.editor.cancelGesture.2 } := by
  obtain ⟨⟨store, gesture⟩, bytes, cursor⟩ := state
  cases gesture with
  | none => exact h
  | some gesture =>
    obtain ⟨hbindings, hkept⟩ := hpermits gesture rfl
    have hstores : Stores codec bytes cursor gesture.baseline := h.stores
    have hbase : gesture.baseline.Within record data := h.committed
    have hdocument : store.document.Within record data := h.document
    have hversion := hdocument.formatVersion.trans hbase.formatVersion.symm
    dsimp only [cancelGesture]
    rw [applyTransientTransaction, cancelTransaction]
    by_cases hempty : (transactionBetween store.document gesture.baseline).isEmpty = true
    · have halike := alike_of_between_isEmpty hdocument.valid hbase.valid hversion
        h.metadata.symm hbindings hempty
      rw [CanvasEditor.document, if_pos hempty]
      exact durable_none.mpr ⟨h.registry, hstores.congr halike.symm, hdocument, h.history⟩
    · rw [CanvasEditor.document, if_neg hempty]
      cases hprepare : store.prepareTransaction
          (transactionBetween store.document gesture.baseline) with
      | error error => exact h
      | ok prepared =>
        have halike := alike_of_prepare_between hdocument.valid hbase.valid hkept hversion
          h.metadata.symm hbindings hprepare
        obtain ⟨hresult, _⟩ := hdocument.mutated hcodec.empty h.registry
          (between_within hcodec store.document hbase) hprepare
        exact durable_none.mpr ⟨h.registry, hstores.congr halike.symm, hresult, h.history⟩

end Gestures

/-- Every permitted call keeps the invariant. -/
theorem call_durable (hcodec : ReadsBack record data codec) (h : Durable codec record data state)
    {call : PersistentCall} (hpermits : state.Permits record data call) :
    Durable codec record data (state.call codec call).2 := by
  cases call with
  | effect action appendFails =>
    cases action with
    | applyTransaction transaction =>
      exact applyPersistentTransaction_durable hcodec h hpermits appendFails
    | beginGesture => exact beginGesture_durable h
    | updateGesture transaction => exact updateGesture_durable hcodec h hpermits
    | commitGesture => exact applyPersistentGestureCommit_durable hcodec h hpermits appendFails
    | cancelGesture => exact cancelGesture_durable hcodec h hpermits
  | undo appendFails =>
    refine replayPersistentTransaction_durable hcodec h h.history.1 (hpermits.imp_right And.left) ?_
      (applyPreparedUndo_takesOver _) appendFails
    rfl
  | redo appendFails =>
    refine replayPersistentTransaction_durable hcodec h h.history.2 (hpermits.imp_right And.left) ?_
      (applyPreparedRedo_takesOver _) appendFails
    rfl
  | saveCheckpoint saveFails compactFails =>
    exact saveCanvasCheckpoint_durable hcodec h hpermits saveFails compactFails

/-- An editor that was opened on what the byte store loads. -/
structure Opened (codec : CanvasPersistenceCodec Bytes CodecError)
    (record : CanvasRecord → Prop) (data : CanvasValue → Prop) (state : PersistentEditor Bytes) :
    Prop where
  registry : state.editor.kindRegistry.Establishes record record
  gesture : state.editor.gesture = none
  document : loadCanvasDocument codec state.store = .ok state.editor.document
  cursor : loadCanvasPersistenceCursor codec state.store = .ok state.cursor
  records : EveryRecord record state.editor.document
  metadata : data state.editor.document.metadata
  history : state.editor.store.history.Every (CanvasTransaction.Within record data)

theorem Opened.durable (h : Opened codec record data state) : Durable codec record data state := by
  obtain ⟨checkpoint, entries, start, hloads⟩ := loads_iff.mpr ⟨h.document, h.cursor⟩
  obtain ⟨hvalid, hversion⟩ := hloads.valid
  obtain ⟨⟨store, gesture⟩, bytes, cursor⟩ := state
  obtain rfl : gesture = none := h.gesture
  exact durable_none.mpr ⟨h.registry, ⟨store.document, checkpoint, entries, start, hloads, .refl
    store.document⟩, ⟨hvalid, hversion, h.records, h.metadata⟩, h.history⟩

/-- The byte store loads the cursor and the document that was committed last, up to
the order of its records and up to records that compare equal; calls that fail change
neither the editor nor the cursor, and an entry that the registry leaves equal passes the
assertion of a debug build. -/
structure Persists (codec : CanvasPersistenceCodec Bytes CodecError)
    (state : PersistentEditor Bytes) : Prop where
  cursor : loadCanvasPersistenceCursor codec state.store = .ok state.cursor
  document : ∃ loaded, loadCanvasDocument codec state.store = .ok loaded ∧
    loaded.AlikeDocuments state.editor.committedDocument ∧
      ((state.editor.committedDocument == state.editor.committedDocument) = true →
        (loaded == state.editor.committedDocument) = true)
  failures : ∀ call error next, state.call codec call = (.error error, next) →
    next.editor = state.editor ∧ next.cursor = state.cursor
  asserts : ∀ direction, state.editor.store.nextEntryStays direction = true →
    state.editor.store.passesAssertion direction = true

theorem Durable.persists (h : Durable codec record data state) : Persists codec state := by
  obtain ⟨loaded, checkpoint, entries, start, hloads, halike⟩ := h.stores
  obtain ⟨hdocument, hcursor⟩ := loads_iff.mp ⟨checkpoint, entries, start, hloads⟩
  refine ⟨hcursor, ⟨loaded, hdocument, halike, ?_⟩, fun _ _ _ => call_error,
    fun _ => passesAssertion_of_stays⟩
  exact halike.beq hloads.valid.1.isDraft.keyed h.committed.valid.isDraft.keyed

/-- In every run of permitted calls, whatever writes fail in it, the byte store
follows the editor. -/
theorem persistence_follows_editor (hcodec : ReadsBack record data codec)
    {last : PersistentEditor Bytes} {calls : List PersistentCall}
    (hopened : Opened codec record data state)
    (halong : (persistentSession codec).Along (Permits record data) state calls)
    (hrun : (persistentSession codec).run state calls = some last) : Persists codec last := by
  have hlast : Durable codec record data last := by
    refine Machine.run_induction ?_ hopened.durable halong hrun
    intro state call output next hstate hpermits hstep
    have hnext := call_durable hcodec hstate hpermits
    rw [persistentSession, Option.some.injEq] at hstep
    rw [hstep] at hnext
    exact hnext
  exact hlast.persists

end PersistentEditor

namespace DurabilityWitness

open PersistentEditor

/-- A codec whose bytes are the values themselves. -/
def plainCodec : CanvasPersistenceCodec (CanvasCheckpoint ⊕ CanvasLogEntry) Unit where
  encodeCheckpoint checkpoint := .ok (.inl checkpoint)
  decodeCheckpoint bytes := bytes.elim .ok fun _ => .error ()
  encodeLogEntry entry := .ok (.inr entry)
  decodeLogEntry bytes := bytes.elim (fun _ => .error ()) .ok

theorem plainCodec_readsBack : ReadsBack (fun _ => True) (fun _ => True) plainCodec := by
  refine ⟨trivial, ?_, ?_⟩
  · rintro checkpoint bytes _ h
    obtain rfl := ok.inj h
    rfl
  · rintro entry bytes _ h
    obtain rfl := ok.inj h
    rfl

/-- An empty canvas over an empty store. -/
def opened : PersistentEditor (CanvasCheckpoint ⊕ CanvasLogEntry) := ⟨.new .default, .default, ⟨0⟩⟩

theorem opened_opened : Opened plainCodec (fun _ => True) (fun _ => True) opened where
  registry := ⟨fun _ _ _ _ => trivial, fun _ _ _ _ => trivial, fun _ _ _ _ => trivial⟩
  gesture := rfl
  document := rfl
  cursor := rfl
  records := fun _ _ => trivial
  metadata := trivial
  history := ⟨nofun, nofun⟩

def placing : CanvasTransaction :=
  .new [.insertNode (CanvasNode.new "card" origin extent),
    .insertNode (CanvasNode.new "note" origin extent)]

def moving : CanvasTransaction :=
  .single (.updateNode (CanvasNode.new "card" ⟨.finite 40, .finite 0⟩ extent))

def binding : CanvasTransaction :=
  .single (.setRecordBinding (.new "link" (.node "card") (.node "note")))

/-- Calls of every kind, of which an undo, a checkpoint and a gesture commit fail. -/
def following : List PersistentCall :=
  [.effect (.applyTransaction placing) false, .undo true, .undo false, .redo false,
    .saveCheckpoint true false, .saveCheckpoint false true, .effect .beginGesture false,
    .effect (.updateGesture moving) false, .effect .commitGesture true,
    .effect .commitGesture false, .undo false]

/-- Every kind of the registry has no schema. -/
def schemaless (registry : CanvasKindRegistry) : Bool :=
  registry.nodeKinds.values.all (·.schema.isNone) &&
    (registry.edgeKinds.values.all (·.schema.isNone) &&
      registry.shapeKinds.values.all (·.schema.isNone))

theorem keeps_of_schemaless {registry : CanvasKindRegistry} (h : schemaless registry = true)
    (record : CanvasRecord) : registry.Keeps record := by
  have hnone : ∀ {ρ : Type} {kinds : IndexMap String (CanvasKind ρ)} (name : String),
      kinds.values.all (·.schema.isNone) = true → (kinds.get name).bind (·.schema) = none := by
    intro ρ kinds name hkinds
    cases hget : kinds.get name with
    | none => rfl
    | some kind =>
      have hkind := List.all_eq_true.mp hkinds kind (IndexMap.mem_values_iff.mpr ⟨name, hget⟩)
      exact isNone_iff_eq_none.mp hkind
  rw [schemaless, and_eq_true, and_eq_true] at h
  obtain ⟨hnodes, hedges, hshapes⟩ := h
  cases record with
  | node node =>
    rw [CanvasKindRegistry.Keeps, normalizeNode, normalizeRecord, hnone node.kind hnodes]
  | edge edge =>
    rw [CanvasKindRegistry.Keeps, normalizeEdge, normalizeRecord, hnone edge.kind hedges]
  | shape shape =>
    rw [CanvasKindRegistry.Keeps, normalizeShape, normalizeRecord, hnone shape.kind hshapes]

variable (state : PersistentEditor (CanvasCheckpoint ⊕ CanvasLogEntry))

/-- `Permits` where there are no edges, relations or schemas. -/
def permitsPlain : PersistentCall → Bool
  | .effect .beginGesture _ | .effect (.updateGesture _) _ => true
  | .effect .commitGesture _ | .effect .cancelGesture _ =>
    decide state.cursor.HasRoom && (schemaless state.editor.kindRegistry &&
      (bare state.editor.document && state.editor.gesture.all (bare ·.baseline)))
  | .effect (.applyTransaction _) _ | .saveCheckpoint _ _ =>
    state.editor.gesture.isNone && decide state.cursor.HasRoom
  | .undo _ =>
    (state.editor.gesture.isNone && decide state.cursor.HasRoom) &&
      state.editor.store.nextEntryStays .undo
  | .redo _ =>
    (state.editor.gesture.isNone && decide state.cursor.HasRoom) &&
      state.editor.store.nextEntryStays .redo

theorem permits_of_plain (call : PersistentCall) (h : permitsPlain state call = true) :
    state.Permits (fun _ => True) (fun _ => True) call := by
  have hwithin : ∀ transaction : CanvasTransaction,
      transaction.Within (fun _ => True) fun _ => True :=
    fun _ => ⟨fun _ _ _ _ => trivial, trivial⟩
  have houtside : (state.editor.gesture.isNone && decide state.cursor.HasRoom) = true →
      state.editor.gesture = none ∧ state.cursor.HasRoom := by
    intro houtside
    rw [and_eq_true] at houtside
    exact ⟨isNone_iff_eq_none.mp houtside.1, of_decide_eq_true houtside.2⟩
  have hgesture : ∀ gesture, state.editor.gesture = some gesture →
      (decide state.cursor.HasRoom && (schemaless state.editor.kindRegistry &&
        (bare state.editor.document && state.editor.gesture.all (bare ·.baseline)))) = true →
      state.cursor.HasRoom ∧
        (∀ transaction, state.editor.kindRegistry.normalizeTransaction transaction =
          .ok transaction) ∧
        bare state.editor.document = true ∧ bare gesture.baseline = true := by
    intro gesture hgesture hplain
    rw [hgesture, and_eq_true, and_eq_true, and_eq_true] at hplain
    obtain ⟨hroom, hschemaless, hdocument, hbaseline⟩ := hplain
    refine ⟨of_decide_eq_true hroom, fun transaction => ?_, hdocument, hbaseline⟩
    exact normalizeTransaction_of_keeps fun _ _ record _ => keeps_of_schemaless hschemaless record
  cases call with
  | undo appendFails | redo appendFails => exact .inr ((and_eq_true _ _ ▸ h).imp houtside id)
  | saveCheckpoint saveFails compactFails => exact (houtside h).1
  | effect action appendFails =>
    cases action with
    | applyTransaction transaction =>
      obtain ⟨hnone, hroom⟩ := houtside h
      exact .inr ⟨hnone, hroom, hwithin transaction⟩
    | beginGesture => trivial
    | updateGesture transaction => exact .inr (hwithin transaction)
    | commitGesture =>
      intro gesture hsome
      obtain ⟨hroom, hkept, hdocument, hbaseline⟩ := hgesture gesture hsome h
      exact ⟨hroom, (leadsTo_of_bare hbaseline hdocument).bindings, hkept _⟩
    | cancelGesture =>
      intro gesture hsome
      obtain ⟨_, hkept, hdocument, hbaseline⟩ := hgesture gesture hsome h
      exact ⟨(leadsTo_of_bare hdocument hbaseline).bindings, hkept _⟩

theorem persistence_follows_editor_cards : ∃ last,
    (persistentSession plainCodec).run opened following = some last ∧ Persists plainCodec last ∧
      last.cursor = ⟨5⟩ := by
  have halong : (persistentSession plainCodec).holdsAlong permitsPlain opened following = true := by
    decide
  have hrun : ((persistentSession plainCodec).run opened following).any
      (fun last => decide (last.cursor = ⟨5⟩)) = true := by decide
  rw [any_eq_true] at hrun
  obtain ⟨last, hlast, hcursor⟩ := hrun
  refine ⟨last, hlast, ?_, of_decide_eq_true hcursor⟩
  exact persistence_follows_editor plainCodec_readsBack opened_opened
    (Machine.Along.mono permits_of_plain (Machine.holdsAlong_iff.mp halong)) hlast

/-- The binding that a gesture made is in the document and not in its log. -/
def bound : List PersistentCall :=
  [.effect (.applyTransaction placing) false, .effect .beginGesture false,
    .effect (.updateGesture binding) false, .effect .commitGesture false]

theorem persistence_not_follows_editor_bound : ¬ ∀ (calls : List PersistentCall)
    (last : PersistentEditor (CanvasCheckpoint ⊕ CanvasLogEntry)),
      (persistentSession plainCodec).run opened calls = some last → last.editor.gesture = none →
        ∃ loaded, loadCanvasDocument plainCodec last.store = .ok loaded ∧
          (loaded == last.editor.document) = true := by
  intro h
  have hlost : ((persistentSession plainCodec).run opened bound).any (fun last =>
      last.editor.gesture.isNone && !(loadCanvasDocument plainCodec last.store).toOption.any
        (fun loaded => loaded == last.editor.document)) = true := by decide
  rw [any_eq_true] at hlost
  obtain ⟨last, hlast, hlost⟩ := hlost
  rw [and_eq_true, isNone_iff_eq_none] at hlost
  obtain ⟨hgesture, hlost⟩ := hlost
  obtain ⟨loaded, hloaded, hequal⟩ := h bound last hlast hgesture
  rw [hloaded] at hlost
  simp [Except.toOption, hequal] at hlost

end DurabilityWitness

end OpenGpui.Canvas
