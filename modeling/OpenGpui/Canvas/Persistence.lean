/-
Persistence of a canvas.  Committed mutations are appended to a log of bytes before
they are applied; a checkpoint holds a snapshot, and loading replays the entries
after it.  What the codec writes is a parameter, and every write can fail.
-/
import OpenGpui.Canvas.Store

namespace OpenGpui.Canvas

open Checked CanvasStore

structure CanvasCheckpoint where
  sequence : UInt64
  snapshot : CanvasSnapshot
deriving BEq

variable (sequence : UInt64)

def CanvasCheckpoint.new (document : CanvasDocument) : CanvasCheckpoint :=
  ⟨sequence, document.toSnapshot⟩

/-- `CanvasRecordOperation` and `CanvasRelationOperation`. -/
structure CanvasOperation (Change : Type) where
  transactionSequence : UInt64
  operationIndex : UInt64
  change : Change
deriving BEq

/-- `CanvasRecordOperationBatch` and `CanvasRelationOperationBatch`; the origin of a
batch from a commit is `None`. -/
structure CanvasOperationBatch (Change : Type) where
  transactionSequence : UInt64
  origin : Option String
  transactionMetadata : CanvasValue
  operations : List (CanvasOperation Change)
deriving BEq

/-- `from_record_changes` and `from_relation_changes`. -/
def CanvasOperationBatch.fromChanges {Change : Type} (transactionSequence : UInt64)
    (transactionMetadata : CanvasValue) (changes : List Change) : CanvasOperationBatch Change where
  transactionSequence
  origin := none
  transactionMetadata
  operations := changes.zipIdx.map fun entry =>
    ⟨transactionSequence, UInt64.ofNat entry.2, entry.1⟩

structure CanvasLogEntry where
  sequence : UInt64
  transaction : CanvasTransaction
  committedRecordOperationBatch : Option (CanvasOperationBatch CanvasRecordChange)
  committedRelationOperationBatch : Option (CanvasOperationBatch CanvasRelationChange)
deriving BEq

def CanvasLogEntry.fromCommittedMutation (committed : CanvasCommittedMutation) :
    CanvasLogEntry where
  sequence
  transaction := committed.transaction
  committedRecordOperationBatch :=
    some (.fromChanges sequence committed.transaction.metadata committed.recordChanges)
  committedRelationOperationBatch :=
    some (.fromChanges sequence committed.transaction.metadata committed.relationChanges)

structure CanvasPersistenceCursor where
  sequence : UInt64
deriving DecidableEq

namespace CanvasPersistenceCursor

variable (cursor : CanvasPersistenceCursor)

/-- `self.sequence + 1`, which wraps around. -/
def nextSequence : UInt64 := cursor.sequence + 1

def advance : CanvasPersistenceCursor := ⟨cursor.nextSequence⟩

end CanvasPersistenceCursor

section Codec

variable (Bytes CodecError : Type)

structure CanvasPersistenceCodec where
  encodeCheckpoint : CanvasCheckpoint → Except CodecError Bytes
  decodeCheckpoint : Bytes → Except CodecError CanvasCheckpoint
  encodeLogEntry : CanvasLogEntry → Except CodecError Bytes
  decodeLogEntry : Bytes → Except CodecError CanvasLogEntry

structure CanvasEncodedLogEntry where
  sequence : UInt64
  bytes : Bytes

structure MemoryCanvasPersistenceByteStore where
  checkpoint : Option Bytes
  logEntries : List (CanvasEncodedLogEntry Bytes)

inductive CanvasPersistenceByteStoreError where
  | store
  | codec (error : CodecError)
  | logSequenceMismatch (key payload : UInt64)

inductive CanvasPersistenceError where
  | store (error : CanvasPersistenceByteStoreError CodecError)
  | document (error : DocumentError)
  | nonMonotonicLogSequence (previous found : UInt64)

end Codec

namespace MemoryCanvasPersistenceByteStore

variable {Bytes : Type}

def default : MemoryCanvasPersistenceByteStore Bytes := ⟨none, []⟩

variable (store : MemoryCanvasPersistenceByteStore Bytes)

def saveCheckpointBytes (bytes : Bytes) : MemoryCanvasPersistenceByteStore Bytes :=
  { store with checkpoint := some bytes }

def appendLogEntryBytes (sequence : UInt64)
    (bytes : Bytes) : MemoryCanvasPersistenceByteStore Bytes :=
  { store with logEntries := store.logEntries ++ [⟨sequence, bytes⟩] }

def loadLogEntryBytes (afterSequence : UInt64) : List (CanvasEncodedLogEntry Bytes) :=
  store.logEntries.filter fun entry => decide (entry.sequence > afterSequence)

def compactLogEntryBytes (throughSequence : UInt64) : MemoryCanvasPersistenceByteStore Bytes :=
  { store with
    logEntries := store.logEntries.filter fun entry => decide (entry.sequence > throughSequence) }

end MemoryCanvasPersistenceByteStore

-- the byte store adapter; a write whose flag is set fails before it changes anything
namespace CanvasPersistenceCodec

variable {Bytes CodecError : Type} (codec : CanvasPersistenceCodec Bytes CodecError)
  (store : MemoryCanvasPersistenceByteStore Bytes)

def loadCheckpoint :
    Except (CanvasPersistenceByteStoreError CodecError) (Option CanvasCheckpoint) :=
  match store.checkpoint with
  | none => .ok none
  | some bytes => some <$> (codec.decodeCheckpoint bytes).mapError .codec

def saveCheckpoint (checkpoint : CanvasCheckpoint) (fails : Bool) :
    Except (CanvasPersistenceByteStoreError CodecError)
      (MemoryCanvasPersistenceByteStore Bytes) := do
  let bytes ← (codec.encodeCheckpoint checkpoint).mapError .codec
  if fails then .error .store else .ok (store.saveCheckpointBytes bytes)

def appendLogEntry (entry : CanvasLogEntry) (fails : Bool) :
    Except (CanvasPersistenceByteStoreError CodecError)
      (MemoryCanvasPersistenceByteStore Bytes) := do
  let bytes ← (codec.encodeLogEntry entry).mapError .codec
  if fails then .error .store else .ok (store.appendLogEntryBytes entry.sequence bytes)

def decodeEntry (encoded : CanvasEncodedLogEntry Bytes) :
    Except (CanvasPersistenceByteStoreError CodecError) CanvasLogEntry := do
  let entry ← (codec.decodeLogEntry encoded.bytes).mapError .codec
  if entry.sequence ≠ encoded.sequence then
    .error (.logSequenceMismatch encoded.sequence entry.sequence)
  else .ok entry

def loadLogEntries (afterSequence : UInt64) :
    Except (CanvasPersistenceByteStoreError CodecError) (List CanvasLogEntry) :=
  (store.loadLogEntryBytes afterSequence).mapM codec.decodeEntry

def compactLogEntries (throughSequence : UInt64) (fails : Bool) :
    Except (CanvasPersistenceByteStoreError CodecError) (MemoryCanvasPersistenceByteStore Bytes) :=
  if fails then .error .store else .ok (store.compactLogEntryBytes throughSequence)

end CanvasPersistenceCodec

section Load

variable {Bytes CodecError : Type} (checkpoint : Option CanvasCheckpoint)

/-- `checkpoint.map_or(0, |checkpoint| checkpoint.sequence)`. -/
def checkpointSequence : UInt64 := checkpoint.elim 0 (·.sequence)

/-- One entry of the log: a later sequence, and a transaction that applies. -/
def replayEntry (state : CanvasDocument × UInt64) (entry : CanvasLogEntry) :
    Except (CanvasPersistenceError CodecError) (CanvasDocument × UInt64) :=
  let (document, previousSequence) := state
  if entry.sequence ≤ previousSequence then
    .error (.nonMonotonicLogSequence previousSequence entry.sequence)
  else
    match CanvasMutationJournal.commit document entry.transaction with
    | (.error error, _) => .error (.document error)
    | (.ok _, document) => .ok (document, entry.sequence)

/-- The document replaying starts from. -/
def checkpointDocument : Except (CanvasPersistenceError CodecError) CanvasDocument :=
  match checkpoint with
  | some checkpoint => (CanvasDocument.fromSnapshot checkpoint.snapshot).mapError .document
  | none => .ok .default

def replayCheckpointAndLog (logEntries : List CanvasLogEntry) :
    Except (CanvasPersistenceError CodecError) CanvasDocument := do
  let document ← checkpointDocument checkpoint
  let (document, _) ← logEntries.foldlM replayEntry (document, checkpointSequence checkpoint)
  return document

variable (codec : CanvasPersistenceCodec Bytes CodecError)
  (store : MemoryCanvasPersistenceByteStore Bytes)

def loadCanvasDocument : Except (CanvasPersistenceError CodecError) CanvasDocument := do
  let checkpoint ← (codec.loadCheckpoint store).mapError .store
  let logEntries ← (codec.loadLogEntries store (checkpointSequence checkpoint)).mapError .store
  replayCheckpointAndLog checkpoint logEntries

/-- One entry of the log, of which only the sequence is read. -/
def advanceSequence (previousSequence : UInt64) (entry : CanvasLogEntry) :
    Except (CanvasPersistenceError CodecError) UInt64 :=
  if entry.sequence ≤ previousSequence then
    .error (.nonMonotonicLogSequence previousSequence entry.sequence)
  else .ok entry.sequence

def loadCanvasPersistenceCursor :
    Except (CanvasPersistenceError CodecError) CanvasPersistenceCursor := do
  let checkpoint ← (codec.loadCheckpoint store).mapError .store
  let logEntries ← (codec.loadLogEntries store (checkpointSequence checkpoint)).mapError .store
  let sequence ← logEntries.foldlM advanceSequence (checkpointSequence checkpoint)
  return ⟨sequence⟩

end Load

/-- An editor with the byte store that persists it and the cursor of its log. -/
structure PersistentEditor (Bytes : Type) where
  editor : CanvasEditor
  store : MemoryCanvasPersistenceByteStore Bytes
  cursor : CanvasPersistenceCursor

/-- A call on a persistent editor with the writes that fail in it. -/
inductive PersistentCall where
  | effect (action : CanvasEditorAction) (appendFails : Bool)
  | undo (appendFails : Bool)
  | redo (appendFails : Bool)
  | saveCheckpoint (saveFails compactFails : Bool)

namespace PersistentEditor

variable {Bytes CodecError : Type} (codec : CanvasPersistenceCodec Bytes CodecError)

variable (state : PersistentEditor Bytes)

def appendCommittedLogEntry (committed : CanvasCommittedMutation)
    (fails : Bool) :
    Except (CanvasPersistenceError CodecError) (MemoryCanvasPersistenceByteStore Bytes) :=
  (codec.appendLogEntry state.store
    (.fromCommittedMutation state.cursor.nextSequence committed) fails).mapError .store

/-- `append_then_apply_prepared_mutation`: a mutation without effect is not logged. -/
def appendThenApplyPreparedMutation (prepared : CanvasPreparedMutation)
    (apply : CanvasStore → CanvasPreparedMutation → Option CanvasStoreChange × CanvasStore)
    (fails : Bool) :
    Except (CanvasPersistenceError CodecError)
      (Option CanvasStoreChange) × PersistentEditor Bytes :=
  let committed := prepared.committed
  if committed.diff.isEmpty then
    let (change, canvasStore) := apply state.editor.store prepared
    (.ok change, { state with editor := { state.editor with store := canvasStore } })
  else
    match state.appendCommittedLogEntry codec committed fails with
    | .error error => (.error error, state)
    | .ok store =>
      let (change, canvasStore) := apply state.editor.store prepared
      (.ok change, ⟨{ state.editor with store := canvasStore }, store, state.cursor.advance⟩)

def applyPersistentTransaction (transaction : CanvasTransaction)
    (fails : Bool) :
    Except (CanvasPersistenceError CodecError)
      (Option CanvasStoreChange) × PersistentEditor Bytes :=
  if transaction.isEmpty then (.ok none, state)
  else
    match state.editor.store.prepareTransaction transaction with
    | .error error => (.error (.document error), state)
    | .ok prepared =>
      state.appendThenApplyPreparedMutation codec prepared
        applyPreparedTransaction fails

/-- `undo_persistent_transaction` and `redo_persistent_transaction`. -/
def replayPersistentTransaction (prepared : Except DocumentError (Option CanvasPreparedMutation))
    (apply : CanvasStore → CanvasPreparedMutation → Option CanvasStoreChange × CanvasStore)
    (fails : Bool) :
    Except (CanvasPersistenceError CodecError)
      (Option CanvasStoreChange) × PersistentEditor Bytes :=
  match prepared with
  | .error error => (.error (.document error), state)
  | .ok none => (.ok none, state)
  | .ok (some prepared) => state.appendThenApplyPreparedMutation codec prepared apply fails

variable (fails : Bool)

def undoPersistentTransaction :
    Except (CanvasPersistenceError CodecError)
      (Option CanvasStoreChange) × PersistentEditor Bytes :=
  state.replayPersistentTransaction codec state.editor.store.prepareUndo
    applyPreparedUndo fails

def redoPersistentTransaction :
    Except (CanvasPersistenceError CodecError)
      (Option CanvasStoreChange) × PersistentEditor Bytes :=
  state.replayPersistentTransaction codec state.editor.store.prepareRedo
    applyPreparedRedo fails

variable (action : CanvasEditorAction)

/-- The effect of an editor that persistence has no part in. -/
def applyToolEffect :
    Except (CanvasPersistenceError CodecError) Unit × PersistentEditor Bytes :=
  let (result, editor) := state.editor.applyEditorAction action
  (result.mapError .document, { state with editor })

def applyPersistentGestureCommit :
    Except (CanvasPersistenceError CodecError) Unit × PersistentEditor Bytes :=
  match state.editor.prepareGestureCommit with
  | .error error => (.error (.document error), state)
  | .ok none => state.applyToolEffect .commitGesture
  | .ok (some prepared) =>
    let committed := prepared.committed
    if committed.diff.isEmpty then
      (.ok (), { state with editor := (state.editor.applyPreparedGestureStoreChange prepared).2 })
    else
      match state.appendCommittedLogEntry codec committed fails with
      | .error error => (.error error, state)
      | .ok store =>
        (.ok (), ⟨(state.editor.applyPreparedGestureStoreChange prepared).2, store,
          state.cursor.advance⟩)

def applyPersistentToolEffect
    (fails : Bool) : Except (CanvasPersistenceError CodecError) Unit × PersistentEditor Bytes :=
  match action with
  | .applyTransaction transaction =>
    let (result, state) := state.applyPersistentTransaction codec transaction fails
    (result.map fun _ => (), state)
  | .commitGesture => state.applyPersistentGestureCommit codec fails
  | action => state.applyToolEffect action

/-- The log is compacted once the checkpoint is saved; when that fails the saved
checkpoint stays. -/
def saveCanvasCheckpoint (saveFails compactFails : Bool) :
    Except (CanvasPersistenceError CodecError) CanvasCheckpoint × PersistentEditor Bytes :=
  let checkpoint := CanvasCheckpoint.new state.cursor.sequence state.editor.document
  match codec.saveCheckpoint state.store checkpoint saveFails with
  | .error error => (.error (.store error), state)
  | .ok store =>
    match CanvasPersistenceCodec.compactLogEntries store checkpoint.sequence compactFails with
    | .error error => (.error (.store error), { state with store })
    | .ok store => (.ok checkpoint, { state with store })

def call :
    PersistentCall → Except (CanvasPersistenceError CodecError) Unit × PersistentEditor Bytes
  | .effect action appendFails => state.applyPersistentToolEffect codec action appendFails
  | .undo appendFails =>
    let (result, state) := state.undoPersistentTransaction codec appendFails
    (result.map fun _ => (), state)
  | .redo appendFails =>
    let (result, state) := state.redoPersistentTransaction codec appendFails
    (result.map fun _ => (), state)
  | .saveCheckpoint saveFails compactFails =>
    let (result, state) := state.saveCanvasCheckpoint codec saveFails compactFails
    (result.map fun _ => (), state)

end PersistentEditor

/-- A persistent editor under any calls. -/
def persistentSession {Bytes CodecError : Type} (codec : CanvasPersistenceCodec Bytes CodecError) :
    Machine (PersistentEditor Bytes) PersistentCall
      (Except (CanvasPersistenceError CodecError) Unit) where
  step state call := some (state.call codec call)

end OpenGpui.Canvas
