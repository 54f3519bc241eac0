/-
Loading what was written.  An entry that is appended is replayed after the others,
and a checkpoint stands for all of them.
-/
import OpenGpui.Canvas.Persistence

namespace OpenGpui.Canvas

open Checked CanvasDocument CanvasMutationJournal List Except
open CanvasDocumentBuilder CanvasPersistenceCodec MemoryCanvasPersistenceByteStore

section Sequences

variable {CodecError : Type}

theorem mapError_eq_ok {ε ε' α : Type} {result : Except ε α} {wrap : ε → ε'} {value : α} :
    result.mapError wrap = .ok value ↔ result = .ok value := by
  cases result with
  | error error | ok other => simp [Except.mapError]

theorem commit_ok_iff {document after : CanvasDocument} {transaction : CanvasTransaction}
    {committed : CanvasCommittedMutation} :
    commit document transaction = (.ok committed, after) ↔
      prepareWithKindRegistry document transaction .openRegistry = .ok ⟨after, committed⟩ := by
  rw [commit, commitWithKindRegistry]
  cases prepareWithKindRegistry document transaction .openRegistry with
  | error error => simp
  | ok prepared =>
    obtain ⟨reached, written⟩ := prepared
    simp [and_comm]

variable {entry : CanvasLogEntry}

theorem replayEntry_ok_iff {state next : CanvasDocument × UInt64} :
    @replayEntry CodecError state entry = .ok next ↔ state.2 < entry.sequence ∧ ∃ committed,
        commit state.1 entry.transaction = (.ok committed, next.1) ∧ next.2 = entry.sequence := by
  obtain ⟨document, previous⟩ := state
  obtain ⟨nextDocument, nextSequence⟩ := next
  rw [replayEntry]
  rw [← UInt64.not_le]
  by_cases hle : entry.sequence ≤ previous
  · simp [hle]
  · rw [if_neg hle, and_iff_right hle]
    cases hcommit : commit document entry.transaction with
    | mk result after =>
      cases result with
      | error error => simp
      | ok committed => simp [eq_comm]

theorem advanceSequence_ok_iff {previous next : UInt64} :
    @advanceSequence CodecError previous entry = .ok next ↔
      previous < entry.sequence ∧ next = entry.sequence := by
  rw [advanceSequence, guard_eq_ok, UInt64.not_le, ok.injEq, eq_comm (b := next)]

variable {entries : List CanvasLogEntry}

/-- The cursor ends at a sequence that none of the entries is after. -/
theorem sequences_le {start last : UInt64}
    (h : entries.foldlM (@advanceSequence CodecError) start = .ok last) :
    start ≤ last ∧ ∀ entry ∈ entries, entry.sequence ≤ last := by
  induction entries generalizing start with
  | nil =>
    rw [foldlM_nil, pure_eq_ok] at h
    subst h
    exact ⟨UInt64.le_refl _, fun entry hmem => absurd hmem not_mem_nil⟩
  | cons entry rest ih =>
    rw [foldlM_cons, bind_eq_ok] at h
    obtain ⟨next, hnext, h⟩ := h
    obtain ⟨hlt, rfl⟩ := advanceSequence_ok_iff.mp hnext
    obtain ⟨hle, hrest⟩ := ih h
    refine ⟨UInt64.le_trans (UInt64.le_of_lt hlt) hle, fun other hmem => ?_⟩
    rcases mem_cons.mp hmem with rfl | hother
    · exact hle
    · exact hrest other hother

/-- Replaying entries ends at the sequence the cursor ends at. -/
theorem replay_sequence {state last : CanvasDocument × UInt64}
    (h : entries.foldlM (@replayEntry CodecError) state = .ok last) :
    entries.foldlM (@advanceSequence CodecError) state.2 = .ok last.2 := by
  induction entries generalizing state with
  | nil =>
    rw [foldlM_nil, pure_eq_ok] at h
    rw [h]
    rfl
  | cons entry rest ih =>
    rw [foldlM_cons, bind_eq_ok] at h ⊢
    obtain ⟨next, hnext, h⟩ := h
    obtain ⟨hlt, _, _, hsequence⟩ := replayEntry_ok_iff.mp hnext
    exact ⟨next.2, advanceSequence_ok_iff.mpr ⟨hlt, hsequence⟩, ih h⟩

end Sequences

variable {Bytes CodecError : Type} {codec : CanvasPersistenceCodec Bytes CodecError}
  {store : MemoryCanvasPersistenceByteStore Bytes} {document : CanvasDocument}
  {cursor : CanvasPersistenceCursor}

/-- What the byte store holds, and what replaying it leads to. -/
structure Loads (codec : CanvasPersistenceCodec Bytes CodecError)
    (store : MemoryCanvasPersistenceByteStore Bytes) (document : CanvasDocument)
    (cursor : CanvasPersistenceCursor) (checkpoint : Option CanvasCheckpoint)
    (entries : List CanvasLogEntry) (start : CanvasDocument) : Prop where
  checkpointLoads : codec.loadCheckpoint store = .ok checkpoint
  entriesLoad : codec.loadLogEntries store (checkpointSequence checkpoint) = .ok entries
  startsFrom : @checkpointDocument CodecError checkpoint = .ok start
  replays : entries.foldlM (@replayEntry CodecError) (start, checkpointSequence checkpoint) =
    .ok (document, cursor.sequence)

theorem loads_iff : (∃ checkpoint entries start,
    Loads codec store document cursor checkpoint entries start) ↔
      loadCanvasDocument codec store = .ok document ∧
        loadCanvasPersistenceCursor codec store = .ok cursor := by
  constructor
  · rintro ⟨checkpoint, entries, start, h⟩
    constructor
    · rw [loadCanvasDocument, bind_eq_ok]
      refine ⟨checkpoint, mapError_eq_ok.mpr h.checkpointLoads, bind_eq_ok.mpr
        ⟨entries, mapError_eq_ok.mpr h.entriesLoad, ?_⟩⟩
      rw [replayCheckpointAndLog, bind_eq_ok]
      exact ⟨start, h.startsFrom, bind_eq_ok.mpr ⟨_, h.replays, rfl⟩⟩
    · rw [loadCanvasPersistenceCursor, bind_eq_ok]
      refine ⟨checkpoint, mapError_eq_ok.mpr h.checkpointLoads, bind_eq_ok.mpr
        ⟨entries, mapError_eq_ok.mpr h.entriesLoad, ?_⟩⟩
      exact bind_eq_ok.mpr ⟨_, replay_sequence h.replays, rfl⟩
  · rintro ⟨hdocument, hcursor⟩
    rw [loadCanvasDocument, bind_eq_ok] at hdocument
    obtain ⟨checkpoint, hcheckpoint, hdocument⟩ := hdocument
    rw [bind_eq_ok] at hdocument
    obtain ⟨entries, hentries, hdocument⟩ := hdocument
    rw [replayCheckpointAndLog, bind_eq_ok] at hdocument
    obtain ⟨start, hstart, hdocument⟩ := hdocument
    rw [bind_eq_ok] at hdocument
    obtain ⟨⟨last, sequence⟩, hreplay, hlast⟩ := hdocument
    rw [pure_eq_ok] at hlast
    subst hlast
    have hsequence := replay_sequence hreplay
    rw [loadCanvasPersistenceCursor, hcheckpoint] at hcursor
    obtain ⟨sameCheckpoint, hsame, hcursor⟩ := bind_eq_ok.mp hcursor
    rw [ok.injEq] at hsame
    subst hsame
    obtain ⟨sameEntries, hsame, hcursor⟩ := bind_eq_ok.mp hcursor
    rw [hentries, ok.injEq] at hsame
    subst hsame
    obtain ⟨reached, hreached, hresult⟩ := bind_eq_ok.mp hcursor
    rw [pure_eq_ok] at hresult
    subst hresult
    rw [hsequence, ok.injEq] at hreached
    subst hreached
    exact ⟨checkpoint, entries, start, mapError_eq_ok.mp hcheckpoint, mapError_eq_ok.mp hentries,
      hstart, hreplay⟩

theorem decodeEntry_ok_iff {encoded : CanvasEncodedLogEntry Bytes} {entry : CanvasLogEntry} :
    codec.decodeEntry encoded = .ok entry ↔
      codec.decodeLogEntry encoded.bytes = .ok entry ∧ entry.sequence = encoded.sequence := by
  rw [decodeEntry, bind_eq_ok]
  constructor
  · rintro ⟨decoded, hdecoded, h⟩
    rw [guard_eq_ok, not_ne_iff, ok.injEq] at h
    obtain ⟨hsequence, rfl⟩ := h
    exact ⟨mapError_eq_ok.mp hdecoded, hsequence⟩
  · rintro ⟨hdecoded, hsequence⟩
    refine ⟨entry, mapError_eq_ok.mpr hdecoded, ?_⟩
    rw [guard_eq_ok, not_ne_iff]
    exact ⟨hsequence, rfl⟩

variable {entries : List CanvasLogEntry} {start : CanvasDocument}

section

variable {checkpoint : Option CanvasCheckpoint}
  (h : Loads codec store document cursor checkpoint entries start)

include h

/-- Nothing that is stored is after the cursor. -/
theorem Loads.sequence_le : checkpointSequence checkpoint ≤ cursor.sequence ∧
      ∀ encoded ∈ store.logEntries, encoded.sequence ≤ cursor.sequence := by
  obtain ⟨hstart, hentries⟩ := sequences_le (replay_sequence h.replays)
  refine ⟨hstart, fun encoded hmem => ?_⟩
  by_cases hlater : encoded.sequence > checkpointSequence checkpoint
  · have hloaded : encoded ∈ store.loadLogEntryBytes (checkpointSequence checkpoint) :=
      mem_filter.mpr ⟨hmem, decide_eq_true hlater⟩
    obtain ⟨entry, hentry, hdecode⟩ := mem_results_of_mapM_eq_ok h.entriesLoad hloaded
    rw [← (decodeEntry_ok_iff.mp hdecode).2]
    exact hentries entry hentry
  · exact UInt64.le_trans (UInt64.not_lt.mp hlater) hstart

/-- An entry after the cursor is replayed after the others. -/
theorem Loads.append
    {entry : CanvasLogEntry} {bytes : Bytes} (hroom : cursor.sequence < entry.sequence)
    (hbytes : codec.decodeLogEntry bytes = .ok entry) {committed : CanvasCommittedMutation}
    {after : CanvasDocument} (hcommit : commit document entry.transaction =
    (.ok committed, after)) :
    Loads codec (store.appendLogEntryBytes entry.sequence bytes) after ⟨entry.sequence⟩ checkpoint
      (entries ++ [entry]) start := by
  obtain ⟨hstart, _⟩ := h.sequence_le
  refine ⟨h.checkpointLoads, ?_, h.startsFrom, ?_⟩
  · have hlater : entry.sequence > checkpointSequence checkpoint :=
      UInt64.lt_of_le_of_lt hstart hroom
    have hfilter : (store.appendLogEntryBytes entry.sequence bytes).loadLogEntryBytes
        (checkpointSequence checkpoint) =
          store.loadLogEntryBytes (checkpointSequence checkpoint) ++ [⟨entry.sequence, bytes⟩] := by
      rw [appendLogEntryBytes]
      simp [loadLogEntryBytes, hlater]
    have hold := h.entriesLoad
    rw [CanvasPersistenceCodec.loadLogEntries] at hold ⊢
    rw [hfilter, mapM_append, hold, bind_eq_ok]
    refine ⟨entries, rfl, bind_eq_ok.mpr ⟨[entry], ?_, rfl⟩⟩
    have hdecode : codec.decodeEntry ⟨entry.sequence, bytes⟩ = .ok entry :=
      decodeEntry_ok_iff.mpr ⟨hbytes, rfl⟩
    rw [mapM_cons, hdecode]
    rfl
  · rw [foldlM_append, h.replays, bind_eq_ok]
    refine ⟨_, rfl, ?_⟩
    rw [foldlM_cons, bind_eq_ok]
    exact ⟨(after, entry.sequence), replayEntry_ok_iff.mpr ⟨hroom, committed, hcommit, rfl⟩, rfl⟩

end

/-- A checkpoint at the cursor stands for every entry. -/
theorem loads_checkpoint {checkpoint : CanvasCheckpoint} {bytes : Bytes}
    (hbytes : codec.decodeCheckpoint bytes = .ok checkpoint)
    (hsnapshot : fromSnapshot checkpoint.snapshot = .ok document)
    (hcheckpoint : store.checkpoint = some bytes)
    (hstored : ∀ encoded ∈ store.logEntries, encoded.sequence ≤ checkpoint.sequence) :
    Loads codec store document ⟨checkpoint.sequence⟩ (some checkpoint) [] document := by
  refine ⟨?_, ?_, ?_, rfl⟩
  · rw [loadCheckpoint, hcheckpoint]
    exact map_eq_ok.mpr ⟨checkpoint, mapError_eq_ok.mpr hbytes, rfl⟩
  · have hnone : store.loadLogEntryBytes checkpoint.sequence = [] := by
      refine filter_eq_nil_iff.mpr fun encoded hmem => ?_
      rw [decide_eq_true_eq]
      exact UInt64.not_lt.mpr (hstored encoded hmem)
    rw [CanvasPersistenceCodec.loadLogEntries, checkpointSequence, Option.elim_some, hnone]
    rfl
  · exact mapError_eq_ok.mpr hsnapshot

theorem default_valid : CanvasDocument.default.Valid :=
  builds_valid (.inl (rfl :
    (afterCalls []).build = .ok .default))

/-- What is loaded is valid and has the current format. -/
theorem Loads.valid {checkpoint : Option CanvasCheckpoint} (h :
    Loads codec store document cursor checkpoint entries start) :
    document.Valid ∧ document.formatVersion = CANVAS_DOCUMENT_FORMAT_VERSION := by
  have hstart : start.Valid ∧ start.formatVersion = CANVAS_DOCUMENT_FORMAT_VERSION := by
    have hstarts := h.startsFrom
    cases checkpoint with
    | none =>
      rw [checkpointDocument, ok.injEq] at hstarts
      exact hstarts ▸ ⟨default_valid, rfl⟩
    | some checkpoint =>
      have hsnapshot := mapError_eq_ok.mp hstarts
      exact ⟨fromSnapshot_valid hsnapshot, fromSnapshot_formatVersion hsnapshot⟩
  refine @foldlM_invariant _ _ _ _ replayEntry
    (fun state => state.1.Valid ∧ state.1.formatVersion = CANVAS_DOCUMENT_FORMAT_VERSION)
    ?_ _ _ h.replays hstart
  rintro ⟨previous, sequence⟩ entry ⟨next, nextSequence⟩ hstep ⟨hvalid, hversion⟩
  obtain ⟨_, committed, hcommit, _⟩ := replayEntry_ok_iff.mp hstep
  have hprepared := commit_ok_iff.mp hcommit
  exact ⟨prepare_valid hvalid hprepared, (prepare_metadata hprepared).1.trans hversion⟩

end OpenGpui.Canvas
