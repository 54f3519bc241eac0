/-
Gestures and history of an editor.  While no gesture is under way, the undo stack
leads from the document to the initial one; during a gesture it leads there from the
baseline.  Undo, redo and transactions that come in the middle of a gesture are
applied to the wrong document, and a gesture that changes bindings loses them.
-/
import OpenGpui.Canvas.Store

namespace OpenGpui.Canvas

open Checked CanvasDocument CanvasMutationJournal CanvasHistory CanvasEditor
open CanvasDocumentBuilder CanvasGestureSession CanvasHistory CanvasKindRegistry CanvasStore
  Option

/-- The document is valid, the registry keeps its records, and the stacks can be
committed from it, the undo stack back to the initial document. -/
structure Recovers (registry : CanvasKindRegistry) (initial : CanvasDocument)
    (history : CanvasHistory) (document : CanvasDocument) : Prop where
  valid : document.Valid
  settled : SettledRecords registry document
  formatVersion : document.formatVersion = initial.formatVersion
  metadata : document.metadata = initial.metadata
  undo : Unwinds registry document history.undoStack initial
  redo : ∃ last, Unwinds registry document history.redoStack last

namespace Recovers

variable {registry : CanvasKindRegistry} {initial document other : CanvasDocument}
  {history : CanvasHistory} {transaction : CanvasTransaction} {prepared : CanvasPreparedMutation}

theorem start (hvalid : document.Valid) (hsettled : SettledRecords registry document) :
    Recovers registry document .default document :=
  ⟨hvalid, hsettled, rfl, rfl, .refl document, document, .refl document⟩

variable (hregistry : registry.Idempotent)

include hregistry

variable (h : Recovers registry initial history document)

include h

theorem congr (halike : document.AlikeDocuments other) (hother : other.Valid)
    (hsettled : SettledRecords registry other) : Recovers registry initial history other := by
  obtain ⟨last, hredo⟩ := h.redo
  exact ⟨hother, hsettled, halike.formatVersion.symm.trans h.formatVersion,
    halike.metadata.symm.trans h.metadata, h.undo.congr hregistry halike h.valid hother hsettled,
    last, hredo.congr hregistry halike h.valid hother hsettled⟩

section

variable (hprepared : prepareWithKindRegistry document transaction registry = .ok prepared)

include hprepared

/-- What an entry of a history leads to, before the stacks change. -/
theorem result : prepared.document.Valid ∧ SettledRecords registry prepared.document ∧
      prepared.document.formatVersion = initial.formatVersion ∧
      prepared.document.metadata = initial.metadata := by
  obtain ⟨hversion, hmetadata⟩ := prepare_metadata hprepared
  exact ⟨prepare_valid h.valid hprepared, (prepare_settled hregistry h.valid h.settled hprepared).1,
    hversion.trans h.formatVersion, hmetadata.trans h.metadata⟩

/-- The inverse is pushed unless it is empty, and then the mutation changed nothing. -/
theorem pushed {kept pushed : CanvasHistory}
    (hkept : document.AlikeDocuments prepared.document →
      Recovers registry initial kept prepared.document)
    (hpushed : Recovers registry initial pushed prepared.document) :
    Recovers registry initial (if prepared.committed.inverse.isEmpty then kept else pushed)
      prepared.document ∧
    (prepared.committed.diff.isEmpty = true →
      Recovers registry initial kept prepared.document) := by
  refine ⟨?_, fun hdiff => hkept (alike_of_prepare_diff h.valid hprepared hdiff)⟩
  split
  · next hempty =>
    exact hkept (alike_of_inverse_isEmpty hregistry h.valid h.settled hprepared hempty).symm
  · exact hpushed

/-- A mutation whose inverse is pushed. -/
theorem pushUndo :
    Recovers registry initial (history.pushUndo prepared.committed.inverse) prepared.document := by
  obtain ⟨hvalid, hsettled, hversion, hmetadata⟩ := h.result hregistry hprepared
  refine (h.pushed hregistry hprepared
    (fun halike => h.congr hregistry halike hvalid hsettled) ?_).1
  exact ⟨hvalid, hsettled, hversion, hmetadata, h.undo.push hregistry h.valid h.settled hprepared,
    prepared.document, .refl _⟩

end

variable {rest : List CanvasTransaction}

/-- An undone entry moves to the redo stack. -/
theorem undone (hstack : history.undoStack = transaction :: rest)
    (hprepared : prepareWithKindRegistry document transaction registry = .ok prepared) :
    Recovers registry initial (history.popUndo.pushRedo prepared.committed.inverse)
      prepared.document ∧
    (prepared.committed.diff.isEmpty = true →
      Recovers registry initial history.popUndo prepared.document) := by
  obtain ⟨hvalid, hsettled, hversion, hmetadata⟩ := h.result hregistry hprepared
  obtain ⟨last, hredo⟩ := h.redo
  have hundo : Unwinds registry prepared.document history.popUndo.undoStack initial := by
    rw [popUndo, hstack]
    exact (hstack ▸ h.undo).tail hprepared
  exact h.pushed hregistry hprepared
    (fun halike => ⟨hvalid, hsettled, hversion, hmetadata, hundo, last,
      hredo.congr hregistry halike h.valid hvalid hsettled⟩)
    ⟨hvalid, hsettled, hversion, hmetadata, hundo, last,
      hredo.push hregistry h.valid h.settled hprepared⟩

/-- A redone entry moves back, and the rest of the redo stack is dropped with it. -/
theorem redone (hstack : history.redoStack = transaction :: rest)
    (hprepared : prepareWithKindRegistry document transaction registry = .ok prepared) :
    Recovers registry initial (history.popRedo.pushUndo prepared.committed.inverse)
      prepared.document ∧
    (prepared.committed.diff.isEmpty = true →
      Recovers registry initial history.popRedo prepared.document) := by
  obtain ⟨hvalid, hsettled, hversion, hmetadata⟩ := h.result hregistry hprepared
  obtain ⟨last, hunwinds⟩ := h.redo
  have hredo : ∃ last, Unwinds registry prepared.document history.popRedo.redoStack last := by
    rw [popRedo, hstack]
    exact ⟨last, (hstack ▸ hunwinds).tail hprepared⟩
  exact h.pushed hregistry hprepared
    (fun halike => ⟨hvalid, hsettled, hversion, hmetadata,
      h.undo.congr hregistry halike h.valid hvalid hsettled, hredo⟩)
    ⟨hvalid, hsettled, hversion, hmetadata, h.undo.push hregistry h.valid h.settled hprepared,
      prepared.document, .refl _⟩

end Recovers

namespace CanvasStore

/-- The history of a store leads from its document back to the initial one. -/
def RecoversTo (initial : CanvasDocument) (store : CanvasStore) : Prop :=
  Recovers store.kindRegistry initial store.history store.document

variable {initial : CanvasDocument} {store : CanvasStore} {transaction : CanvasTransaction}
  {prepared : CanvasPreparedMutation} {direction : CanvasStoreHistoryDirection}

theorem prepareHistory_eq_some (h : store.prepareHistory direction = .ok (some prepared)) :
    ∃ entry, store.nextEntry direction = some entry ∧
      store.prepareTransaction entry = .ok prepared := by
  cases hentry : store.nextEntry direction with
  | none =>
    have hnothing : store.prepareHistory direction = .ok none := by
      cases direction <;> rw [nextEntry] at hentry <;>
        simp [prepareHistory, prepareUndo, prepareRedo, hentry]
    cases hnothing.symm.trans h
  | some entry =>
    have hprepare : store.prepareHistory direction = some <$> store.prepareTransaction entry := by
      cases direction <;> rw [nextEntry] at hentry <;>
        simp [prepareHistory, prepareUndo, prepareRedo, hentry]
    obtain ⟨other, hother, heq⟩ := map_eq_ok.mp (hprepare.symm.trans h)
    cases heq
    exact ⟨entry, rfl, hother⟩

/-- An entry that the registry leaves equal is the one that the assertion expects. -/
theorem passesAssertion_of_stays (h : store.nextEntryStays direction = true) :
    store.passesAssertion direction = true := by
  rw [passesAssertion]
  split
  · next prepared hprepare =>
    obtain ⟨entry, hentry, hprepared⟩ := prepareHistory_eq_some hprepare
    obtain ⟨normalized, _, _, hnormalized, _, _, _, _, _, htransaction, _⟩ :=
      prepare_ok_steps hprepared
    rw [nextEntryStays, hentry, Option.all_some, hnormalized] at h
    rw [expectsTransaction, hentry, htransaction, some_beq_some]
    exact h
  · rfl

/-- The registry keeps what the entries of the stacks write. -/
theorem nextEntry_kept {registry : CanvasKindRegistry} {document : CanvasDocument}
    (h : Recovers registry initial store.history document) {entry : CanvasTransaction}
    (hentry : store.nextEntry direction = some entry) :
    EveryWritten registry.Keeps entry.commands := by
  cases direction with
  | undo =>
    obtain ⟨rest, hstack⟩ := List.head?_eq_some_iff.mp hentry
    have hunwinds := h.undo
    rw [hstack] at hunwinds
    exact hunwinds.1
  | redo =>
    obtain ⟨rest, hstack⟩ := List.head?_eq_some_iff.mp hentry
    obtain ⟨last, hunwinds⟩ := h.redo
    rw [hstack] at hunwinds
    exact hunwinds.1

/-- A debug build gets past the assertion with an entry that equals itself. -/
theorem passesAssertion_of_reflexive (hkept : ∀ {entry : CanvasTransaction},
      store.nextEntry direction = some entry → EveryWritten store.kindRegistry.Keeps entry.commands)
    (hself : store.nextEntryReflexive direction = true) :
    store.passesAssertion direction = true := by
  apply passesAssertion_of_stays
  rw [nextEntryReflexive] at hself
  rw [nextEntryStays]
  cases hentry : store.nextEntry direction with
  | none => rfl
  | some entry =>
    rw [hentry] at hself
    rw [Option.all_some, normalizeTransaction_of_keeps (hkept hentry)]
    exact hself

theorem applyPreparedTransaction_recovers (hregistry : store.kindRegistry.Idempotent)
    (h : store.RecoversTo initial) (hprepared :
    store.prepareTransaction transaction = .ok prepared) :
    (store.applyPreparedTransaction prepared).2.RecoversTo initial := by
  rw [applyPreparedTransaction_snd]
  split
  · next hdiff =>
    obtain ⟨hvalid, hsettled, _⟩ := h.result hregistry hprepared
    exact h.congr hregistry (alike_of_prepare_diff h.valid hprepared hdiff) hvalid hsettled
  · exact h.pushUndo hregistry hprepared

variable (hregistry : store.kindRegistry.Idempotent)

include hregistry

variable (h : store.RecoversTo initial)

include h

variable {rest : List CanvasTransaction}

theorem applyPreparedUndo_recovers (hstack : store.history.undoStack = transaction :: rest)
    (hprepared : store.prepareTransaction transaction = .ok prepared) :
    (store.applyPreparedUndo prepared).2.RecoversTo initial ∧
      (store.applyPreparedUndo prepared).2.history.undoStack = rest := by
  obtain ⟨hmoved, hdropped⟩ := h.undone hregistry hstack hprepared
  have htail : store.history.popUndo.undoStack = rest := by
    rw [popUndo, hstack]
    rfl
  rw [applyPreparedUndo_snd]
  split
  · next hdiff => exact ⟨hdropped hdiff, htail⟩
  · refine ⟨hmoved, ?_⟩
    rw [← htail, pushRedo]
    by_cases hempty : prepared.committed.inverse.isEmpty = true
    · rw [if_pos hempty]
    · rw [if_neg hempty]

theorem applyPreparedRedo_recovers (hstack : store.history.redoStack = transaction :: rest)
    (hprepared : store.prepareTransaction transaction = .ok prepared) :
    (store.applyPreparedRedo prepared).2.RecoversTo initial := by
  obtain ⟨hmoved, hdropped⟩ := h.redone hregistry hstack hprepared
  rw [applyPreparedRedo_snd]
  split
  · next hdiff => exact hdropped hdiff
  · exact hmoved

theorem commitTransaction_recovers (transaction : CanvasTransaction) :
    (store.commitTransaction transaction).2.RecoversTo initial ∧
      (store.commitTransaction transaction).2.kindRegistry = store.kindRegistry := by
  rw [commitTransaction]
  by_cases hempty : transaction.isEmpty = true
  · rw [if_pos hempty]
    exact ⟨h, rfl⟩
  · rw [if_neg hempty]
    cases hprepare : store.prepareTransaction transaction with
    | error error => exact ⟨h, rfl⟩
    | ok prepared =>
      refine ⟨applyPreparedTransaction_recovers hregistry h hprepare, ?_⟩
      dsimp only
      rw [applyPreparedTransaction_snd]

/-- Undo succeeds and takes the top entry off the stack. -/
theorem undo_recovers : ∃ changed next, store.undo = (.ok changed, next) ∧ next.RecoversTo initial ∧
      next.kindRegistry = store.kindRegistry ∧
      next.history.undoStack = store.history.undoStack.tail := by
  cases hstack : store.history.undoStack with
  | nil => exact ⟨false, store, undo_of_isEmpty hstack, h, rfl, hstack⟩
  | cons transaction rest =>
    have hunwinds := h.undo
    rw [hstack] at hunwinds
    obtain ⟨_, prepared, hprepared, _⟩ := hunwinds
    obtain ⟨hnext, htail⟩ := applyPreparedUndo_recovers hregistry h hstack hprepared
    exact ⟨_, _, undo_of_prepare hstack hprepared, hnext, by rw [applyPreparedUndo_snd], htail⟩

theorem redo_recovers : ∃ changed next, store.redo = (.ok changed, next) ∧ next.RecoversTo initial ∧
      next.kindRegistry = store.kindRegistry := by
  cases hstack : store.history.redoStack with
  | nil => exact ⟨false, store, redo_of_isEmpty hstack, h, rfl⟩
  | cons transaction rest =>
    obtain ⟨last, hunwinds⟩ := h.redo
    rw [hstack] at hunwinds
    obtain ⟨_, prepared, hprepared, _⟩ := hunwinds
    exact ⟨_, _, redo_of_prepare hstack hprepared,
      applyPreparedRedo_recovers hregistry h hstack hprepared,
      by rw [applyPreparedRedo_snd]⟩

end CanvasStore

namespace CanvasEditor

/-- The calls that keep an editor able to go back.  Transactions and steps in the
history come while no gesture is under way, or have nothing to do, and the entry of a
step equals itself; a gesture is committed with the bindings it began with, and
cancelled where its document leads to the baseline. -/
def Permits (editor : CanvasEditor) : EditorCall → Prop
  | .action (.applyTransaction transaction) =>
    editor.gesture = none ∨ transaction.isEmpty = true
  | .action .commitGesture => ∀ gesture, editor.gesture = some gesture →
      BindingsStay gesture.baseline editor.document
  | .action .cancelGesture => ∀ gesture, editor.gesture = some gesture →
      LeadsTo editor.document gesture.baseline
  | .undo => editor.gesture = none ∧ editor.store.nextEntryReflexive .undo = true ∨
      editor.store.history.undoStack = []
  | .redo => editor.gesture = none ∧ editor.store.nextEntryReflexive .redo = true ∨
      editor.store.history.redoStack = []
  | .action _ => True

/-- The invariant of an editor.  During a gesture the history belongs to the
baseline, and the document is any valid one. -/
def Coherent (registry : CanvasKindRegistry) (initial : CanvasDocument) (editor : CanvasEditor) :
    Prop :=
  editor.kindRegistry = registry ∧ match editor.gesture with
    | none => Recovers registry initial editor.store.history editor.document
    | some gesture =>
      Recovers registry initial editor.store.history gesture.baseline ∧
        editor.document.Valid ∧ SettledRecords registry editor.document ∧
        editor.document.formatVersion = initial.formatVersion ∧
        editor.document.metadata = initial.metadata

section Steps

variable {registry : CanvasKindRegistry} {initial : CanvasDocument} {editor : CanvasEditor}

theorem coherent_none {store : CanvasStore} : Coherent registry initial ⟨store, none⟩ ↔
      store.kindRegistry = registry ∧ store.RecoversTo initial := by
  constructor
  · rintro ⟨rfl, h⟩
    exact ⟨rfl, h⟩
  · rintro ⟨rfl, h⟩
    exact ⟨rfl, h⟩

theorem Coherent.document_valid (h : Coherent registry initial editor) :
    editor.document.Valid ∧ SettledRecords registry editor.document ∧
      editor.document.formatVersion = initial.formatVersion ∧
      editor.document.metadata = initial.metadata := by
  obtain ⟨_, h⟩ := h
  cases hgesture : editor.gesture with
  | none =>
    rw [hgesture] at h
    exact ⟨h.valid, h.settled, h.formatVersion, h.metadata⟩
  | some gesture =>
    rw [hgesture] at h
    exact h.2

theorem Coherent.passesAssertion (h : Coherent registry initial editor)
    {direction : CanvasStoreHistoryDirection}
    (hself : editor.store.nextEntryReflexive direction = true) :
    editor.store.passesAssertion direction = true := by
  obtain ⟨rfl, h⟩ := h
  cases hgesture : editor.gesture with
  | none =>
    rw [hgesture] at h
    exact passesAssertion_of_reflexive (nextEntry_kept h) hself
  | some gesture =>
    rw [hgesture] at h
    exact passesAssertion_of_reflexive (nextEntry_kept h.1) hself

theorem beginGesture_coherent (h : Coherent registry initial editor) :
    Coherent registry initial editor.beginGesture := by
  rw [beginGesture]
  cases hgesture : editor.gesture with
  | some gesture => exact h
  | none =>
    obtain ⟨hvalid, hsettled, hversion, hmetadata⟩ := h.document_valid
    obtain ⟨hkind, h⟩ := h
    rw [hgesture] at h
    exact ⟨hkind, h, hvalid, hsettled, hversion, hmetadata⟩

section

variable (hregistry : registry.Idempotent)

include hregistry

variable (h : Coherent registry initial editor)

include h

theorem applyTransaction_coherent {transaction : CanvasTransaction}
    (hpermits : editor.gesture = none ∨ transaction.isEmpty = true) :
    Coherent registry initial (editor.applyTransaction transaction).2 := by
  rw [applyTransaction]
  by_cases hempty : transaction.isEmpty = true
  · rw [if_pos hempty]
    exact h
  · rw [if_neg hempty]
    have hgesture := hpermits.resolve_right hempty
    obtain ⟨store, gesture⟩ := editor
    obtain rfl : gesture = none := hgesture
    obtain ⟨rfl, hrecovers⟩ := coherent_none.mp h
    obtain ⟨hnext, hkind⟩ := store.commitTransaction_recovers hregistry hrecovers transaction
    exact coherent_none.mpr ⟨hkind, hnext⟩

/-- An update changes the document alone, and the baseline stays. -/
theorem updateGesture_coherent (transaction : CanvasTransaction) :
    Coherent registry initial (editor.updateGesture transaction).2 := by
  rw [updateGesture]
  by_cases hempty : transaction.isEmpty = true
  · rw [if_pos hempty]
    exact h
  rw [if_neg hempty, applyTransientTransaction, if_neg hempty]
  cases hprepare : editor.store.prepareTransaction transaction with
  | error error => exact h
  | ok prepared =>
    obtain ⟨hvalid, hsettled, hversion, hmetadata⟩ := h.document_valid
    obtain ⟨hkind, h⟩ := h
    have hprepared : prepareWithKindRegistry editor.document transaction registry =
        .ok prepared := hkind ▸ hprepare
    obtain ⟨hsameVersion, hsameMetadata⟩ := prepare_metadata hprepared
    have hresult := prepare_valid hvalid hprepared
    have hresultSettled := (prepare_settled hregistry hvalid hsettled hprepared).1
    have hbaseline : Recovers registry initial editor.store.history
        (editor.gesture.getD (.begin editor.document)).baseline := by
      cases hgesture : editor.gesture with
      | none =>
        rw [hgesture] at h
        exact h
      | some gesture =>
        rw [hgesture] at h
        exact h.1
    exact ⟨hkind, hbaseline, hresult, hresultSettled, hsameVersion.trans hversion,
      hsameMetadata.trans hmetadata⟩

/-- A committed gesture leaves its document with the history of the baseline and one
more entry. -/
theorem commitGesture_coherent (hpermits : ∀ gesture, editor.gesture = some gesture →
      BindingsStay gesture.baseline editor.document) :
    Coherent registry initial editor.commitGesture.2 := by
  obtain ⟨hvalid, hsettled, hversion, hmetadata⟩ := h.document_valid
  obtain ⟨hkind, hcoherent⟩ := h
  rw [commitGesture, prepareGestureCommit]
  cases hgesture : editor.gesture with
  | none =>
    rw [hgesture] at hcoherent
    exact ⟨hkind, hcoherent⟩
  | some gesture =>
    rw [hgesture] at hcoherent
    obtain ⟨hbase, _⟩ := hcoherent
    have hbindings := hpermits gesture hgesture
    have hsameVersion := hbase.formatVersion.trans hversion.symm
    have hsameMetadata := hbase.metadata.trans hmetadata.symm
    dsimp only
    cases hprepare : gesture.prepareCommitWithKindRegistry editor.document editor.kindRegistry with
    | error error =>
      refine ⟨hkind, ?_⟩
      rw [hgesture]
      exact ⟨hbase, hvalid, hsettled, hversion, hmetadata⟩
    | ok prepared =>
      by_cases hempty : (transactionBetween gesture.baseline editor.document).isEmpty = true
      · rw [prepareCommit_of_isEmpty hempty, Except.ok.injEq] at hprepare
        subst hprepare
        have halike := alike_of_between_isEmpty hbase.valid hvalid hsameVersion hsameMetadata
          hbindings hempty
        exact ⟨hkind, hbase.congr hregistry halike hvalid hsettled⟩
      · obtain ⟨mutation, hmutation, rfl⟩ :=
          (prepareCommit_ok_iff hempty).mp hprepare
        rw [hkind] at hmutation
        have halike := alike_of_prepare_between hbase.valid hvalid
          (normalizeTransaction_between hsettled) hsameVersion hsameMetadata hbindings hmutation
        dsimp only
        rw [applyPreparedGestureStoreChange, applyPreparedGestureCommit]
        by_cases hdiff : mutation.committed.diff.isEmpty = true
        · simp only [hdiff, if_true]
          refine ⟨hkind, hbase.congr hregistry ?_ hvalid hsettled⟩
          exact (alike_of_prepare_diff hbase.valid hmutation hdiff).trans halike
        · simp only [hdiff]
          exact ⟨hkind, (hbase.pushUndo hregistry hmutation).congr hregistry halike hvalid hsettled⟩

/-- A cancelled gesture goes back to the baseline. -/
theorem cancelGesture_coherent (hpermits : ∀ gesture, editor.gesture = some gesture →
      BindingsStay editor.document gesture.baseline) :
    Coherent registry initial editor.cancelGesture.2 := by
  rw [cancelGesture]
  cases hgesture : editor.gesture with
  | none => exact h
  | some gesture =>
    obtain ⟨hvalid, hsettled, hversion, hmetadata⟩ := h.document_valid
    have hbindings := hpermits gesture hgesture
    obtain ⟨hkind, hcoherent⟩ := h
    rw [hgesture] at hcoherent
    obtain ⟨hbase, _⟩ := hcoherent
    have hsameVersion := hversion.trans hbase.formatVersion.symm
    have hsameMetadata := hmetadata.trans hbase.metadata.symm
    dsimp only
    rw [applyTransientTransaction, cancelTransaction]
    by_cases hempty : (transactionBetween editor.document gesture.baseline).isEmpty = true
    · rw [if_pos hempty]
      have halike := alike_of_between_isEmpty hvalid hbase.valid hsameVersion hsameMetadata
        hbindings hempty
      exact ⟨hkind, hbase.congr hregistry halike.symm hvalid hsettled⟩
    · rw [if_neg hempty]
      cases hprepare : editor.store.prepareTransaction
          (transactionBetween editor.document gesture.baseline) with
      | error error => exact ⟨hkind, hbase, hvalid, hsettled, hversion, hmetadata⟩
      | ok prepared =>
        have hprepared : prepareWithKindRegistry editor.document
            (transactionBetween editor.document gesture.baseline) registry = .ok prepared :=
          hkind ▸ hprepare
        have halike := alike_of_prepare_between hvalid hbase.valid (normalizeTransaction_between
          hbase.settled) hsameVersion hsameMetadata hbindings hprepared
        exact ⟨hkind, hbase.congr hregistry halike.symm (prepare_valid hvalid hprepared)
          (prepare_settled hregistry hvalid hsettled hprepared).1⟩

end

theorem undo_of_isEmpty (hstack : editor.store.history.undoStack = []) :
    editor.undo = (.ok false, editor) := by
  rw [undo, CanvasStore.undo_of_isEmpty hstack]

theorem redo_of_isEmpty (hstack : editor.store.history.redoStack = []) :
    editor.redo = (.ok false, editor) := by
  rw [redo, CanvasStore.redo_of_isEmpty hstack]

section

variable (hregistry : registry.Idempotent)

include hregistry

variable (h : Coherent registry initial editor)

include h

/-- Outside of a gesture undo succeeds and takes one entry off the stack. -/
theorem undo_coherent (hgesture : editor.gesture = none) :
    ∃ changed next, editor.undo = (.ok changed, next) ∧ Coherent registry initial next ∧
      next.gesture = none ∧
      next.store.history.undoStack = editor.store.history.undoStack.tail := by
  obtain ⟨store, gesture⟩ := editor
  obtain rfl : gesture = none := hgesture
  obtain ⟨rfl, hrecovers⟩ := coherent_none.mp h
  obtain ⟨changed, next, hundo, hnext, hkind, htail⟩ := store.undo_recovers hregistry hrecovers
  refine ⟨changed, ⟨next, none⟩, ?_, coherent_none.mpr ⟨hkind, hnext⟩, rfl, htail⟩
  rw [undo, hundo]

theorem redo_coherent (hgesture : editor.gesture = none) :
    ∃ changed next, editor.redo = (.ok changed, next) ∧ Coherent registry initial next := by
  obtain ⟨store, gesture⟩ := editor
  obtain rfl : gesture = none := hgesture
  obtain ⟨rfl, hrecovers⟩ := coherent_none.mp h
  obtain ⟨changed, next, hredo, hnext, hkind⟩ := store.redo_recovers hregistry hrecovers
  refine ⟨changed, ⟨next, none⟩, ?_, coherent_none.mpr ⟨hkind, hnext⟩⟩
  rw [redo, hredo]

/-- Every permitted call keeps the invariant. -/
theorem call_coherent {call : EditorCall} (hpermits : editor.Permits call) :
    Coherent registry initial (editor.call call).2 := by
  cases call with
  | action action =>
    cases action with
    | applyTransaction transaction => exact applyTransaction_coherent hregistry h hpermits
    | beginGesture => exact beginGesture_coherent h
    | updateGesture transaction => exact updateGesture_coherent hregistry h transaction
    | commitGesture => exact commitGesture_coherent hregistry h hpermits
    | cancelGesture =>
      exact cancelGesture_coherent hregistry h fun gesture hgesture =>
        (hpermits gesture hgesture).bindings
  | undo =>
    rcases hpermits with ⟨hgesture, _⟩ | hstack
    · obtain ⟨changed, next, hundo, hnext, _⟩ := undo_coherent hregistry h hgesture
      rw [call, hundo]
      exact hnext
    · rw [call, undo_of_isEmpty hstack]
      exact h
  | redo =>
    rcases hpermits with ⟨hgesture, _⟩ | hstack
    · obtain ⟨changed, next, hredo, hnext⟩ := redo_coherent hregistry h hgesture
      rw [call, hredo]
      exact hnext
    · rw [call, redo_of_isEmpty hstack]
      exact h

/-- Undoing every entry leads back to the initial document, also in a debug build. -/
theorem undoAll_recovers (hgesture : editor.gesture = none) :
    ∃ last, editor.undoAll editor.store.history.undoStack.length = .ok last ∧
      last.document.Valid ∧ last.document.AlikeDocuments initial ∧
      ((∀ entry ∈ editor.store.history.undoStack, (entry == entry) = true) →
        editor.undoAllPasses editor.store.history.undoStack.length = true) := by
  generalize hdepth : editor.store.history.undoStack.length = depth
  induction depth generalizing editor with
  | zero =>
    obtain ⟨store, gesture⟩ := editor
    obtain rfl : gesture = none := hgesture
    obtain ⟨rfl, hrecovers⟩ := coherent_none.mp h
    have hunwinds := hrecovers.undo
    rw [List.length_eq_zero_iff.mp hdepth] at hunwinds
    exact ⟨_, rfl, hrecovers.valid, hunwinds, fun _ => rfl⟩
  | succ depth ih =>
    obtain ⟨changed, next, hundo, hnext, hnextGesture, htail⟩ := undo_coherent hregistry h hgesture
    have hlength : next.store.history.undoStack.length = depth := by
      rw [htail, List.length_tail, hdepth]
      rfl
    obtain ⟨last, hlast, hvalid, halike, hpasses⟩ := ih hnext hnextGesture hlength
    refine ⟨last, ?_, hvalid, halike, fun hself => ?_⟩
    · rw [undoAll, hundo]
      exact hlast
    · obtain ⟨entry, rest, hstack⟩ := List.exists_cons_of_length_eq_add_one hdepth
      rw [undoAllPasses, hundo, Bool.and_eq_true]
      refine ⟨h.passesAssertion ?_, hpasses fun other hother => ?_⟩
      · have hentry : editor.store.nextEntry .undo = some entry :=
          List.head?_eq_some_iff.mpr ⟨rest, hstack⟩
        rw [CanvasStore.nextEntryReflexive, hentry]
        exact hself entry (hstack ▸ List.mem_cons_self)
      · rw [htail] at hother
        exact hself other (List.mem_of_mem_tail hother)

end

/-- A gesture whose document leads to the baseline can be cancelled. -/
theorem cancelGesture_ok (h : Coherent registry initial editor) {gesture : CanvasGestureSession}
    (hgesture : editor.gesture = some gesture) (hleads : LeadsTo editor.document gesture.baseline) :
    ∃ diff next, editor.cancelGesture = (.ok diff, next) ∧ next.gesture = none := by
  obtain ⟨hvalid, hsettled, _⟩ := h.document_valid
  obtain ⟨hkind, hcoherent⟩ := h
  rw [hgesture] at hcoherent
  obtain ⟨hbase, _⟩ := hcoherent
  obtain ⟨prepared, hprepared⟩ :=
    prepare_between_of_leadsTo hvalid hbase.valid hsettled hbase.settled hleads
  have hprepare : editor.store.prepareTransaction
      (transactionBetween editor.document gesture.baseline) = .ok prepared := by
    rw [← hkind] at hprepared
    exact hprepared
  rw [cancelGesture, hgesture]
  dsimp only
  rw [applyTransientTransaction, cancelTransaction]
  by_cases hempty : (transactionBetween editor.document gesture.baseline).isEmpty = true
  · rw [if_pos hempty]
    exact ⟨_, _, rfl, rfl⟩
  · rw [if_neg hempty, hprepare]
    exact ⟨_, _, rfl, rfl⟩

end Steps

/-- An editor that was made from a valid document, or from one that a kind registry
normalized whose policies change nothing in what they normalized. -/
def StartsFrom (editor : CanvasEditor) (initial : CanvasDocument) : Prop :=
  initial.Valid ∧ editor = new initial ∨
    ∃ (given : CanvasDocument) (registry : CanvasKindRegistry), registry.Idempotent ∧
      tryNewWithKindRegistry given registry = .ok editor ∧ initial = editor.document

theorem StartsFrom.coherent {editor : CanvasEditor} {initial : CanvasDocument}
    (h : editor.StartsFrom initial) :
    initial.Valid ∧ ∃ registry : CanvasKindRegistry, registry.Idempotent ∧
      Coherent registry initial editor := by
  rcases h with ⟨hvalid, rfl⟩ | ⟨given, registry, hregistry, hnew, rfl⟩
  · refine ⟨hvalid, .openRegistry, openRegistry_idempotent, rfl, ?_⟩
    exact .start hvalid fun record _ => openRegistry_keeps record
  · obtain ⟨store, hstore, hnew⟩ := bind_eq_ok.mp hnew
    obtain ⟨document, hdocument, hstore⟩ := bind_eq_ok.mp hstore
    rw [pure_eq_ok] at hnew hstore
    subst hnew
    subst hstore
    have hvalid : document.Valid := fromSnapshot_valid hdocument
    exact ⟨hvalid, registry, hregistry, rfl,
      .start hvalid (fromSnapshot_settled hregistry hdocument)⟩

/-- Undoing every entry succeeds and leads to the initial document, up to the order
of its records and up to records that compare equal; a debug build gets there with
entries that equal themselves. -/
def Returns (initial : CanvasDocument) (editor : CanvasEditor) : Prop :=
  ∃ last, editor.undoAll editor.store.history.undoStack.length = .ok last ∧
    last.document.AlikeDocuments initial ∧
    ((initial == initial) = true → (last.document == initial) = true) ∧
    ((∀ entry ∈ editor.store.history.undoStack, (entry == entry) = true) →
      editor.undoAllPasses editor.store.history.undoStack.length = true)

/-- What an editor can do at any time: outside of a gesture undo and redo succeed and
the history leads back to the initial document, and a gesture that may be cancelled is,
with the same outcome; an entry that equals itself passes the assertion of a debug build. -/
structure Composes (initial : CanvasDocument) (editor : CanvasEditor) : Prop where
  valid : editor.document.Valid
  undoes : editor.gesture = none → ∃ changed next, editor.undo = (.ok changed, next)
  redoes : editor.gesture = none → ∃ changed next, editor.redo = (.ok changed, next)
  asserts : ∀ direction, editor.store.nextEntryReflexive direction = true →
      editor.store.passesAssertion direction = true
  returns : editor.gesture = none → editor.Returns initial
  cancels : ∀ gesture, editor.gesture = some gesture → editor.Permits (.action .cancelGesture) →
      ∃ diff next, editor.cancelGesture = (.ok diff, next) ∧ next.gesture = none ∧
        next.Returns initial

theorem Coherent.composes {registry : CanvasKindRegistry} {initial : CanvasDocument}
    {editor : CanvasEditor} (hregistry : registry.Idempotent) (hinitial : initial.Valid)
    (h : Coherent registry initial editor) : Composes initial editor := by
  have hreturns : ∀ {other : CanvasEditor}, Coherent registry initial other →
      other.gesture = none → other.Returns initial := by
    intro other hother hgesture
    obtain ⟨last, hlast, hvalid, halike, hpasses⟩ := undoAll_recovers hregistry hother hgesture
    exact ⟨last, hlast, halike, halike.beq hvalid.isDraft.keyed hinitial.isDraft.keyed, hpasses⟩
  refine ⟨h.document_valid.1, ?_, ?_, fun _ => h.passesAssertion, hreturns h, ?_⟩
  · intro hgesture
    obtain ⟨changed, next, hundo, _⟩ := undo_coherent hregistry h hgesture
    exact ⟨changed, next, hundo⟩
  · intro hgesture
    obtain ⟨changed, next, hredo, _⟩ := redo_coherent hregistry h hgesture
    exact ⟨changed, next, hredo⟩
  · intro gesture hgesture hpermits
    have hleads := hpermits gesture hgesture
    obtain ⟨diff, next, hcancel, hnext⟩ := cancelGesture_ok h hgesture hleads
    have hcoherent := cancelGesture_coherent hregistry h fun other hother => by
      rw [hgesture, Option.some.injEq] at hother
      exact hother ▸ hleads.bindings
    rw [hcancel] at hcoherent
    exact ⟨diff, next, hcancel, hnext, hreturns hcoherent hnext⟩

/-- In every run of permitted calls, gestures and history compose. -/
theorem gestures_and_history_compose {initial : CanvasDocument} {editor last : CanvasEditor}
    {calls : List EditorCall} (hstart : editor.StartsFrom initial)
    (halong : editorSession.Along Permits editor calls)
    (hrun : editorSession.run editor calls = some last) : Composes initial last := by
  obtain ⟨hinitial, registry, hregistry, hcoherent⟩ := hstart.coherent
  have hlast : Coherent registry initial last := by
    refine Machine.run_induction ?_ hcoherent halong hrun
    intro state call output next hstate hpermits hstep
    have hnext := call_coherent hregistry hstate hpermits
    rw [editorSession, Option.some.injEq] at hstep
    rw [hstep] at hnext
    exact hnext
  exact hlast.composes hregistry hinitial

end CanvasEditor

namespace EditorWitness

open CanvasEditor

def origin : Point := ⟨.finite 0, .finite 0⟩

def extent : Size := ⟨.finite 10, .finite 10⟩

def calls : List BuilderCall := [.addNode (CanvasNode.new "card" origin extent)]

def resting : CanvasDocument := (CanvasDocumentBuilder.afterCalls calls).document

theorem resting_valid : resting.Valid := by
  have hbuild : (afterCalls calls).build = .ok resting := rfl
  exact builds_valid (.inl hbuild)

def insertion : CanvasTransaction := .single (.insertNode (CanvasNode.new "note" origin extent))

def movement : CanvasTransaction :=
  .single (.updateNode (CanvasNode.new "card" ⟨.finite 40, .finite 0⟩ extent))

def removal : CanvasTransaction := .single (.removeNode "note")

/-- A gesture that is committed, undone and redone, and one that is cancelled. -/
def composing : List EditorCall :=
  [.action .beginGesture, .action (.updateGesture insertion), .action .commitGesture, .undo, .redo,
    .action .beginGesture, .action (.updateGesture movement), .action (.updateGesture removal),
    .action .cancelGesture]

variable (editor : CanvasEditor)

/-- A document without edges and relations. -/
def bare (document : CanvasDocument) : Bool :=
  document.edges.entries.isEmpty && document.relations.parents.isEmpty &&
    document.relations.groups.isEmpty && document.relations.bindings.isEmpty

/-- `Permits` where there are neither edges nor relations. -/
def permitsBare : EditorCall → Bool
  | .action (.applyTransaction _) => editor.gesture.isNone
  | .undo => editor.gesture.isNone && editor.store.nextEntryReflexive .undo
  | .redo => editor.gesture.isNone && editor.store.nextEntryReflexive .redo
  | .action .commitGesture | .action .cancelGesture =>
    bare editor.document && editor.gesture.all (bare ·.baseline)
  | .action _ => true

theorem leadsTo_of_bare {previous target : CanvasDocument} (hprevious : bare previous = true)
    (htarget : bare target = true) : LeadsTo previous target := by
  have hnone : ∀ document : CanvasDocument, bare document = true →
      ∀ relation, ¬ document.relations.Holds relation := by
    intro document hbare relation
    simp only [bare, Bool.and_eq_true, List.isEmpty_iff] at hbare
    cases relation <;> simp [CanvasRecordRelations.Holds, hbare]
  refine ⟨?_, ?_, ?_, ?_⟩
  · intro id edge hedge
    simp only [bare, Bool.and_eq_true, List.isEmpty_iff] at hprevious
    rw [IndexMap.get_eq_some_iff, hprevious.1.1.1] at hedge
    exact absurd hedge List.not_mem_nil
  · exact fun _ relation hholds => absurd hholds (hnone previous hprevious relation)
  · intro child parent hparent
    simp only [bare, Bool.and_eq_true, List.isEmpty_iff] at hprevious
    simp [CanvasRecordRelations.parentOf, hprevious.1.1.2] at hparent
  · exact fun binding => ⟨fun h => absurd h.1 (hnone previous hprevious _),
      fun h => absurd h (hnone target htarget _)⟩

theorem permits_of_bare (call : EditorCall)
    (h : permitsBare editor call = true) : editor.Permits call := by
  have hboth : (bare editor.document && editor.gesture.all (bare ·.baseline)) = true →
      ∀ gesture, editor.gesture = some gesture → bare editor.document = true ∧
          bare gesture.baseline = true := by
    intro hbare gesture hgesture
    rw [hgesture, Bool.and_eq_true] at hbare
    exact hbare
  cases call with
  | undo | redo => exact .inl ((Bool.and_eq_true _ _ ▸ h).imp isNone_iff_eq_none.mp id)
  | action action =>
    cases action with
    | applyTransaction transaction => exact .inl (isNone_iff_eq_none.mp h)
    | commitGesture =>
      intro gesture hgesture
      obtain ⟨hdocument, hbaseline⟩ := hboth h gesture hgesture
      exact (leadsTo_of_bare hbaseline hdocument).bindings
    | cancelGesture =>
      intro gesture hgesture
      obtain ⟨hdocument, hbaseline⟩ := hboth h gesture hgesture
      exact leadsTo_of_bare hdocument hbaseline
    | beginGesture => trivial
    | updateGesture transaction => trivial

theorem gestures_and_history_compose_notes : ∃ last,
    editorSession.run (new resting) composing = some last ∧ Composes resting last ∧
      last.store.history.undoStack.length = 1 := by
  have halong : editorSession.holdsAlong permitsBare (new resting) composing = true := by
    decide
  have hrun : (editorSession.run (new resting) composing).any
      (·.store.history.undoStack.length == 1) = true := by decide
  rw [any_eq_true] at hrun
  obtain ⟨last, hlast, hdepth⟩ := hrun
  refine ⟨last, hlast, ?_, beq_iff_eq.mp hdepth⟩
  exact gestures_and_history_compose (Or.inl ⟨resting_valid, rfl⟩)
    (Machine.Along.mono permits_of_bare (Machine.holdsAlong_iff.mp halong)) hlast

/-- The node of the only entry is gone from the document of a gesture when that entry
is undone. -/
def interrupted : List EditorCall :=
  [.action .beginGesture, .action (.updateGesture insertion), .action .commitGesture,
    .action .beginGesture, .action (.updateGesture removal)]

theorem gestures_and_history_not_compose_interrupted : ¬ ∀ (initial : CanvasDocument)
    (calls : List EditorCall) (last : CanvasEditor), initial.Valid →
      editorSession.run (new initial) calls = some last →
        ∃ changed next, last.undo = (.ok changed, next) := by
  intro h
  have hfails : (editorSession.run (new resting) interrupted).any
      (·.undo.1.toOption.isNone) = true := by decide
  rw [any_eq_true] at hfails
  obtain ⟨last, hlast, hnone⟩ := hfails
  obtain ⟨changed, next, hundo⟩ := h resting interrupted last resting_valid hlast
  rw [hundo] at hnone
  exact absurd hnone (by simp [Except.toOption])

end EditorWitness

end OpenGpui.Canvas
