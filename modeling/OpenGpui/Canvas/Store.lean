/-
The store of a canvas, its document with an undo and a redo stack, and its editor.
Mutations are prepared first and applied afterwards; the top of a stack is the head of
its list.
-/
import OpenGpui.Canvas.Snapshot
import OpenGpui.Canvas.UndoStack

namespace OpenGpui.Canvas

structure CanvasHistory where
  undoStack : List CanvasTransaction
  redoStack : List CanvasTransaction

namespace CanvasHistory

def default : CanvasHistory := ⟨[], []⟩

variable (history : CanvasHistory)

def nextUndoTransaction : Option CanvasTransaction := history.undoStack.head?

def nextRedoTransaction : Option CanvasTransaction := history.redoStack.head?

variable (transaction : CanvasTransaction)

/-- A new entry drops what could be redone, also when it is pushed by a redo. -/
def pushUndo : CanvasHistory :=
  if transaction.isEmpty then history else ⟨transaction :: history.undoStack, []⟩

def popUndo : CanvasHistory := { history with undoStack := history.undoStack.tail }

def pushRedo : CanvasHistory :=
  if transaction.isEmpty then history
  else { history with redoStack := transaction :: history.redoStack }

def popRedo : CanvasHistory := { history with redoStack := history.redoStack.tail }

end CanvasHistory

inductive CanvasStoreHistoryEffect where
  | none
  | pushUndo
  | undo
  | redo
deriving DecidableEq

inductive CanvasStoreHistoryDirection where
  | undo
  | redo

structure CanvasStoreChange where
  historyEffect : CanvasStoreHistoryEffect
  committed : CanvasCommittedMutation
  document : CanvasDocument

structure CanvasStore where
  document : CanvasDocument
  kindRegistry : CanvasKindRegistry
  history : CanvasHistory

namespace CanvasStore

variable (document : CanvasDocument)

def new : CanvasStore := ⟨document, .openRegistry, .default⟩

def tryNewWithKindRegistry (kindRegistry : CanvasKindRegistry) :
    Except DocumentError CanvasStore := do
  let document ← CanvasDocument.fromSnapshotWithKindRegistry document.toSnapshot kindRegistry
  return ⟨document, kindRegistry, .default⟩

variable (store : CanvasStore) (transaction : CanvasTransaction)

def prepareTransaction : Except DocumentError CanvasPreparedMutation :=
  CanvasMutationJournal.prepareWithKindRegistry store.document transaction store.kindRegistry

/-- `finish_committed_mutation`, of which the change stays. -/
def finishCommittedMutation (committed : CanvasCommittedMutation)
    (historyEffect : CanvasStoreHistoryEffect) : Option CanvasStoreChange × CanvasStore :=
  (some ⟨historyEffect, committed, store.document⟩, store)

variable (prepared : CanvasPreparedMutation)

def applyPreparedMutation
    (historyEffect : CanvasStoreHistoryEffect) : Option CanvasStoreChange × CanvasStore :=
  let store := { store with document := prepared.document }
  let committed := prepared.committed
  if committed.diff.isEmpty then (none, store)
  else
    let history := if historyEffect = .pushUndo then store.history.pushUndo committed.inverse
      else store.history
    { store with history }.finishCommittedMutation committed historyEffect

def applyPreparedTransaction : Option CanvasStoreChange × CanvasStore :=
  store.applyPreparedMutation prepared .pushUndo

/-- `commit_transaction`: nothing happens for a transaction without commands. -/
def commitTransaction : Except DocumentError (Option CanvasStoreChange) × CanvasStore :=
  if transaction.isEmpty then (.ok none, store)
  else
    match store.prepareTransaction transaction with
    | .error error => (.error error, store)
    | .ok prepared =>
      let (change, store) := store.applyPreparedTransaction prepared
      (.ok change, store)

def prepareUndo : Except DocumentError (Option CanvasPreparedMutation) :=
  match store.history.nextUndoTransaction with
  | none => .ok none
  | some transaction => some <$> store.prepareTransaction transaction

def prepareRedo : Except DocumentError (Option CanvasPreparedMutation) :=
  match store.history.nextRedoTransaction with
  | none => .ok none
  | some transaction => some <$> store.prepareTransaction transaction

/-- The entry that a step in the history prepares. -/
def nextEntry : CanvasStoreHistoryDirection → Option CanvasTransaction
  | .undo => store.history.nextUndoTransaction
  | .redo => store.history.nextRedoTransaction

def prepareHistory :
    CanvasStoreHistoryDirection → Except DocumentError (Option CanvasPreparedMutation)
  | .undo => store.prepareUndo
  | .redo => store.prepareRedo

/-- What a debug build asserts at the start of `apply_prepared_history_mutation`: the mutation
was prepared from the next entry. -/
def expectsTransaction (direction : CanvasStoreHistoryDirection) : Bool :=
  store.nextEntry direction == some prepared.committed.transaction

/-- A step in the history passes that assertion. -/
def passesAssertion (direction : CanvasStoreHistoryDirection) : Bool :=
  match store.prepareHistory direction with
  | .ok (some prepared) => store.expectsTransaction prepared direction
  | _ => true

/-- The next entry equals itself, so that it holds no coordinate that is not a number. -/
def nextEntryReflexive (direction : CanvasStoreHistoryDirection) : Bool :=
  (store.nextEntry direction).all fun entry => entry == entry

/-- The next entry equals what the registry makes of it. -/
def nextEntryStays (direction : CanvasStoreHistoryDirection) : Bool :=
  (store.nextEntry direction).all fun entry =>
    (store.kindRegistry.normalizeTransaction entry).toOption.all (entry == ·)

/-- An entry without effect is dropped; the others move to the other stack as the
inverse that came with them. -/
def applyPreparedHistoryMutation
    (historyEffect : CanvasStoreHistoryEffect) (direction : CanvasStoreHistoryDirection) :
    Option CanvasStoreChange × CanvasStore :=
  let store := { store with document := prepared.document }
  let committed := prepared.committed
  if committed.diff.isEmpty then
    match direction with
    | .undo => (none, { store with history := store.history.popUndo })
    | .redo => (none, { store with history := store.history.popRedo })
  else
    let history := match direction with
      | .undo => store.history.popUndo.pushRedo committed.inverse
      | .redo => store.history.popRedo.pushUndo committed.inverse
    { store with history }.finishCommittedMutation committed historyEffect

def applyPreparedUndo : Option CanvasStoreChange × CanvasStore :=
  store.applyPreparedHistoryMutation prepared .undo .undo

def applyPreparedRedo : Option CanvasStoreChange × CanvasStore :=
  store.applyPreparedHistoryMutation prepared .redo .redo

/-- What `undo` and `redo` do with a prepared entry, if there is one. -/
def replay (prepared : Except DocumentError (Option CanvasPreparedMutation))
    (apply : CanvasStore → CanvasPreparedMutation → Option CanvasStoreChange × CanvasStore) :
    Except DocumentError Bool × CanvasStore :=
  match prepared with
  | .error error => (.error error, store)
  | .ok none => (.ok false, store)
  | .ok (some prepared) =>
    let (change, store) := apply store prepared
    (.ok change.isSome, store)

def undo : Except DocumentError Bool × CanvasStore :=
  store.replay store.prepareUndo applyPreparedUndo

def redo : Except DocumentError Bool × CanvasStore :=
  store.replay store.prepareRedo applyPreparedRedo

/-- `apply_transient_transaction`: the document changes and the history does not. -/
def applyTransientTransaction : Except DocumentError CanvasDocumentDiff × CanvasStore :=
  if transaction.isEmpty then (.ok .default, store)
  else
    match store.prepareTransaction transaction with
    | .error error => (.error error, store)
    | .ok prepared => (.ok prepared.committed.diff, { store with document := prepared.document })

/-- The document already is what the gesture led to. -/
def applyPreparedGestureCommit (prepared : CanvasPreparedGestureCommit) :
    Option CanvasStoreChange × CanvasStore :=
  let committed := prepared.committed
  if committed.diff.isEmpty then (none, store)
  else
    { store with history := store.history.pushUndo committed.inverse }.finishCommittedMutation
      committed .pushUndo

section

variable {store : CanvasStore} {transaction : CanvasTransaction}
  {prepared : CanvasPreparedMutation} {rest : List CanvasTransaction}

theorem applyPreparedTransaction_snd : (store.applyPreparedTransaction prepared).2 =
    ⟨prepared.document, store.kindRegistry, if prepared.committed.diff.isEmpty then store.history
      else store.history.pushUndo prepared.committed.inverse⟩ := by
  rw [applyPreparedTransaction, applyPreparedMutation]
  cases prepared.committed.diff.isEmpty <;> rfl

theorem applyPreparedUndo_snd : (store.applyPreparedUndo prepared).2 =
    ⟨prepared.document, store.kindRegistry, if prepared.committed.diff.isEmpty then
      store.history.popUndo else store.history.popUndo.pushRedo prepared.committed.inverse⟩ := by
  rw [applyPreparedUndo, applyPreparedHistoryMutation]
  cases prepared.committed.diff.isEmpty <;> rfl

theorem applyPreparedRedo_snd : (store.applyPreparedRedo prepared).2 =
    ⟨prepared.document, store.kindRegistry, if prepared.committed.diff.isEmpty then
      store.history.popRedo else store.history.popRedo.pushUndo prepared.committed.inverse⟩ := by
  rw [applyPreparedRedo, applyPreparedHistoryMutation]
  cases prepared.committed.diff.isEmpty <;> rfl

theorem undo_of_isEmpty (hstack : store.history.undoStack = []) :
    store.undo = (.ok false, store) := by
  rw [undo, prepareUndo, CanvasHistory.nextUndoTransaction, hstack]
  rfl

theorem redo_of_isEmpty (hstack : store.history.redoStack = []) :
    store.redo = (.ok false, store) := by
  rw [redo, prepareRedo, CanvasHistory.nextRedoTransaction, hstack]
  rfl

theorem undo_of_prepare (hstack : store.history.undoStack = transaction :: rest)
    (hprepared : store.prepareTransaction transaction = .ok prepared) : store.undo =
      (.ok (store.applyPreparedUndo prepared).1.isSome, (store.applyPreparedUndo prepared).2) := by
  rw [undo, prepareUndo, CanvasHistory.nextUndoTransaction, hstack, List.head?_cons]
  dsimp only
  rw [hprepared]
  rfl

theorem redo_of_prepare (hstack : store.history.redoStack = transaction :: rest)
    (hprepared : store.prepareTransaction transaction = .ok prepared) : store.redo =
      (.ok (store.applyPreparedRedo prepared).1.isSome, (store.applyPreparedRedo prepared).2) := by
  rw [redo, prepareRedo, CanvasHistory.nextRedoTransaction, hstack, List.head?_cons]
  dsimp only
  rw [hprepared]
  rfl

end

end CanvasStore

/-! ### The editor

Updates of a gesture change the document at once; committing it leaves the document and
records one history entry for it, cancelling it takes the document back to the baseline. -/

/-- An editor, of whose session only the gesture takes part in edits. -/
structure CanvasEditor where
  store : CanvasStore
  gesture : Option CanvasGestureSession

inductive CanvasEditorAction where
  | applyTransaction (transaction : CanvasTransaction)
  | beginGesture
  | updateGesture (transaction : CanvasTransaction)
  | commitGesture
  | cancelGesture

/-- A call on an editor: an action, or a step in the history. -/
inductive EditorCall where
  | action (action : CanvasEditorAction)
  | undo
  | redo

/-- Actions return nothing, steps in the history whether the document changed. -/
inductive EditorOutput where
  | action (result : Except DocumentError Unit)
  | history (result : Except DocumentError Bool)

namespace CanvasEditor

def new (document : CanvasDocument) : CanvasEditor := ⟨.new document, none⟩

def tryNewWithKindRegistry (document : CanvasDocument) (kindRegistry : CanvasKindRegistry) :
    Except DocumentError CanvasEditor := do
  return ⟨← CanvasStore.tryNewWithKindRegistry document kindRegistry, none⟩

def document (editor : CanvasEditor) : CanvasDocument := editor.store.document

def kindRegistry (editor : CanvasEditor) : CanvasKindRegistry := editor.store.kindRegistry

variable (editor : CanvasEditor) (transaction : CanvasTransaction)

/-- `apply_transaction_with_diff`. -/
def applyTransaction :
    Except DocumentError CanvasDocumentDiff × CanvasEditor :=
  if transaction.isEmpty then (.ok .default, editor)
  else
    let (result, store) := editor.store.commitTransaction transaction
    let diff := result.map fun change => change.elim .default (·.committed.diff)
    (diff, { editor with store })

/-- A gesture that is under way is not begun again. -/
def beginGesture : CanvasEditor :=
  match editor.gesture with
  | some _ => editor
  | none => { editor with gesture := some (.begin editor.document) }

/-- An update outside of a gesture begins one, unless it fails. -/
def updateGesture :
    Except DocumentError CanvasDocumentDiff × CanvasEditor :=
  if transaction.isEmpty then (.ok .default, editor)
  else
    let gesture := editor.gesture.getD (.begin editor.document)
    match editor.store.applyTransientTransaction transaction with
    | (.error error, store) => (.error error, { editor with store })
    | (.ok diff, store) => (.ok diff, ⟨store, some gesture⟩)

def prepareGestureCommit : Except DocumentError (Option CanvasPreparedGestureCommit) :=
  match editor.gesture with
  | none => .ok none
  | some gesture => gesture.prepareCommitWithKindRegistry editor.document editor.kindRegistry

def applyPreparedGestureStoreChange
    (prepared : CanvasPreparedGestureCommit) : Option CanvasStoreChange × CanvasEditor :=
  let (change, store) := editor.store.applyPreparedGestureCommit prepared
  (change, ⟨store, none⟩)

def commitGesture : Except DocumentError CanvasDocumentDiff × CanvasEditor :=
  match editor.prepareGestureCommit with
  | .error error => (.error error, editor)
  | .ok none => (.ok .default, { editor with gesture := none })
  | .ok (some prepared) =>
    let (change, editor) := editor.applyPreparedGestureStoreChange prepared
    (.ok (change.elim .default (·.committed.diff)), editor)

def cancelGesture : Except DocumentError CanvasDocumentDiff × CanvasEditor :=
  match editor.gesture with
  | none => (.ok .default, editor)
  | some gesture =>
    match editor.store.applyTransientTransaction (gesture.cancelTransaction editor.document) with
    | (.error error, store) => (.error error, { editor with store })
    | (.ok diff, store) => (.ok diff, ⟨store, none⟩)

def undo (editor : CanvasEditor) : Except DocumentError Bool × CanvasEditor :=
  let (changed, store) := editor.store.undo
  (changed, { editor with store })

def redo (editor : CanvasEditor) : Except DocumentError Bool × CanvasEditor :=
  let (changed, store) := editor.store.redo
  (changed, { editor with store })

def applyEditorAction :
    CanvasEditorAction → Except DocumentError Unit × CanvasEditor
  | .applyTransaction transaction =>
    let (result, editor) := editor.applyTransaction transaction
    (result.map fun _ => (), editor)
  | .beginGesture => (.ok (), editor.beginGesture)
  | .updateGesture transaction =>
    let (result, editor) := editor.updateGesture transaction
    (result.map fun _ => (), editor)
  | .commitGesture =>
    let (result, editor) := editor.commitGesture
    (result.map fun _ => (), editor)
  | .cancelGesture =>
    let (result, editor) := editor.cancelGesture
    (result.map fun _ => (), editor)

def call : EditorCall → EditorOutput × CanvasEditor
  | .action action =>
    let (result, editor) := editor.applyEditorAction action
    (.action result, editor)
  | .undo =>
    let (changed, editor) := editor.undo
    (.history changed, editor)
  | .redo =>
    let (changed, editor) := editor.redo
    (.history changed, editor)

/-- Undoes as often as there are entries, as long as that does not fail. -/
def undoAll (editor : CanvasEditor) : Nat → Except DocumentError CanvasEditor
  | 0 => .ok editor
  | depth + 1 =>
    match editor.undo with
    | (.error error, _) => .error error
    | (.ok _, editor) => undoAll editor depth

/-- A debug build gets through as many undos. -/
def undoAllPasses (editor : CanvasEditor) : Nat → Bool
  | 0 => true
  | depth + 1 => editor.store.passesAssertion .undo && undoAllPasses editor.undo.2 depth

end CanvasEditor

/-- An editor under any calls. -/
def editorSession : Machine CanvasEditor EditorCall EditorOutput where
  step editor call := some (editor.call call)

end OpenGpui.Canvas
