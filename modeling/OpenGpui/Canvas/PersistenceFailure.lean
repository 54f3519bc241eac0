/-
Calls on a persistent editor that fail.  A mutation that is refused, or whose entry
cannot be appended, leaves everything as it was; a checkpoint that fails may have been
saved, but the editor and the cursor stay.
-/
import OpenGpui.Canvas.Persistence

namespace OpenGpui.Canvas.PersistentEditor

open CanvasEditor

variable {Bytes CodecError : Type} {codec : CanvasPersistenceCodec Bytes CodecError}
  {state next : PersistentEditor Bytes} {error : CanvasPersistenceError CodecError}

variable {fails : Bool}

variable {apply : CanvasStore → CanvasPreparedMutation → Option CanvasStoreChange × CanvasStore}

theorem appendThenApply_error {prepared : CanvasPreparedMutation} (h :
    state.appendThenApplyPreparedMutation codec prepared apply fails =
      (.error error, next)) : next = state := by
  rw [appendThenApplyPreparedMutation] at h
  by_cases hdiff : prepared.committed.diff.isEmpty = true
  · rw [if_pos hdiff] at h
    cases h
  · rw [if_neg hdiff] at h
    cases happend : appendCommittedLogEntry codec state prepared.committed fails with
    | error failure =>
      rw [happend] at h
      exact (congrArg Prod.snd h).symm
    | ok written =>
      rw [happend] at h
      cases h

theorem applyPersistentTransaction_error {transaction : CanvasTransaction}
    (h : state.applyPersistentTransaction codec transaction fails = (.error error, next)) :
    next = state := by
  rw [applyPersistentTransaction] at h
  by_cases hempty : transaction.isEmpty = true
  · rw [if_pos hempty] at h
    cases h
  · rw [if_neg hempty] at h
    cases hprepare : state.editor.store.prepareTransaction transaction with
    | error refusal =>
      rw [hprepare] at h
      exact (congrArg Prod.snd h).symm
    | ok prepared =>
      rw [hprepare] at h
      exact appendThenApply_error h

theorem replayPersistentTransaction_error
    {result : Except DocumentError (Option CanvasPreparedMutation)} (h :
    state.replayPersistentTransaction codec result apply fails =
      (.error error, next)) : next = state := by
  match result with
  | .error refusal => exact (congrArg Prod.snd h).symm
  | .ok none => cases h
  | .ok (some prepared) => exact appendThenApply_error h

variable {action : CanvasEditorAction}

/-- An action that fails changes nothing, unless it applies a transaction. -/
theorem applyEditorAction_error {editor after : CanvasEditor}
    {refusal : DocumentError} (h : editor.applyEditorAction action = (.error refusal, after))
    (htransaction : ∀ transaction, action ≠ .applyTransaction transaction) : after = editor := by
  have htransient : ∀ transaction failure store, editor.store.applyTransientTransaction transaction
      = (.error failure, store) → store = editor.store := by
    intro transaction failure store hfails
    rw [CanvasStore.applyTransientTransaction] at hfails
    split at hfails
    · cases hfails
    · split at hfails
      · exact (congrArg Prod.snd hfails).symm
      · cases hfails
  cases action with
  | applyTransaction transaction => exact absurd rfl (htransaction transaction)
  | beginGesture => cases h
  | updateGesture transaction =>
    rw [applyEditorAction, updateGesture] at h
    by_cases hempty : transaction.isEmpty = true
    · rw [if_pos hempty] at h
      cases h
    · rw [if_neg hempty] at h
      cases hresult : editor.store.applyTransientTransaction transaction with
      | mk result store =>
        rw [hresult] at h
        cases result with
        | error failure =>
          rw [htransient transaction failure store hresult] at h
          exact (congrArg Prod.snd h).symm
        | ok diff => cases h
  | commitGesture =>
    rw [applyEditorAction, commitGesture] at h
    match hprepare : editor.prepareGestureCommit with
    | .error failure =>
      rw [hprepare] at h
      exact (congrArg Prod.snd h).symm
    | .ok none =>
      rw [hprepare] at h
      cases h
    | .ok (some prepared) =>
      rw [hprepare] at h
      cases h
  | cancelGesture =>
    rw [applyEditorAction, cancelGesture] at h
    cases hgesture : editor.gesture with
    | none =>
      rw [hgesture] at h
      cases h
    | some gesture =>
      rw [hgesture] at h
      dsimp only at h
      cases hresult : editor.store.applyTransientTransaction
          (gesture.cancelTransaction editor.document) with
      | mk result store =>
        rw [hresult] at h
        cases result with
        | error failure =>
          rw [htransient _ failure store hresult, hgesture.symm] at h
          exact (congrArg Prod.snd h).symm
        | ok diff => cases h

theorem applyToolEffect_error (htransaction : ∀ transaction, action ≠ .applyTransaction transaction)
    (h : state.applyToolEffect action = (.error error, next)) : next = state := by
  rw [applyToolEffect] at h
  cases hresult : state.editor.applyEditorAction action with
  | mk result after =>
    rw [hresult] at h
    cases result with
    | error refusal =>
      rw [applyEditorAction_error hresult htransaction] at h
      exact (congrArg Prod.snd h).symm
    | ok done => cases h

theorem applyPersistentGestureCommit_error
    (h : state.applyPersistentGestureCommit codec fails = (.error error, next)) : next = state := by
  rw [applyPersistentGestureCommit] at h
  match hprepare : state.editor.prepareGestureCommit with
  | .error failure =>
    rw [hprepare] at h
    exact (congrArg Prod.snd h).symm
  | .ok none =>
    rw [hprepare] at h
    have htool : ∀ transaction,
        CanvasEditorAction.commitGesture ≠ .applyTransaction transaction := fun _ => nofun
    exact applyToolEffect_error htool h
  | .ok (some prepared) =>
    rw [hprepare] at h
    dsimp only at h
    by_cases hdiff : prepared.committed.diff.isEmpty = true
    · rw [if_pos hdiff] at h
      cases h
    · rw [if_neg hdiff] at h
      cases happend : appendCommittedLogEntry codec state prepared.committed fails with
      | error failure =>
        rw [happend] at h
        exact (congrArg Prod.snd h).symm
      | ok written =>
        rw [happend] at h
        cases h

/-- A call that fails leaves the editor with its history and the cursor as they were. -/
theorem call_error {call : PersistentCall} (h : state.call codec call = (.error error, next)) :
    next.editor = state.editor ∧ next.cursor = state.cursor := by
  have hsame : next = state → next.editor = state.editor ∧ next.cursor = state.cursor := by
    rintro rfl
    exact ⟨rfl, rfl⟩
  have htool : ∀ action, (∀ transaction, action ≠ .applyTransaction transaction) →
      state.applyToolEffect action = (.error error, next) →
        next.editor = state.editor ∧ next.cursor = state.cursor :=
    fun action htransaction h => hsame (applyToolEffect_error htransaction h)
  cases call with
  | effect action appendFails =>
    cases action with
    | applyTransaction transaction =>
      cases hresult : state.applyPersistentTransaction codec transaction appendFails with
      | mk result after =>
        rw [call, applyPersistentToolEffect, hresult] at h
        cases result with
        | error failure =>
          have hafter : after = next := congrArg Prod.snd h
          exact hsame (hafter ▸ applyPersistentTransaction_error hresult)
        | ok change => cases h
    | beginGesture => exact htool .beginGesture (fun _ => nofun) h
    | updateGesture transaction => exact htool (.updateGesture transaction) (fun _ => nofun) h
    | commitGesture => exact hsame (applyPersistentGestureCommit_error h)
    | cancelGesture => exact htool .cancelGesture (fun _ => nofun) h
  | undo appendFails =>
    cases hresult : state.undoPersistentTransaction codec appendFails with
    | mk result after =>
      rw [call, hresult] at h
      cases result with
      | error failure =>
        have hafter : after = next := congrArg Prod.snd h
        exact hsame (hafter ▸ replayPersistentTransaction_error hresult)
      | ok change => cases h
  | redo appendFails =>
    cases hresult : state.redoPersistentTransaction codec appendFails with
    | mk result after =>
      rw [call, hresult] at h
      cases result with
      | error failure =>
        have hafter : after = next := congrArg Prod.snd h
        exact hsame (hafter ▸ replayPersistentTransaction_error hresult)
      | ok change => cases h
  | saveCheckpoint saveFails compactFails =>
    rw [call, saveCanvasCheckpoint] at h
    cases hsave : codec.saveCheckpoint state.store
        (.new state.cursor.sequence state.editor.document) saveFails with
    | error failure =>
      rw [hsave] at h
      exact hsame (congrArg Prod.snd h).symm
    | ok written =>
      rw [hsave] at h
      cases compactFails with
      | true =>
        have hafter : { state with store := written } = next := congrArg Prod.snd h
        exact hafter ▸ ⟨rfl, rfl⟩
      | false => cases h

end OpenGpui.Canvas.PersistentEditor
