/-
Walks through the history of a store.  Undo goes back to the document of the commit
before and redo forward again, as long as no redo comes after the one that dropped
the entry it needs: a redo drops all entries but its own.
-/
import OpenGpui.Canvas.EditorHistory

namespace OpenGpui.Canvas

open Checked CanvasDocument CanvasMutationJournal CanvasHistory
open CanvasHistory CanvasKindRegistry CanvasStore Option

namespace CanvasDocument

variable {document other : CanvasDocument}

/-- Like maps have no difference when the first equals itself. -/
theorem no_changes_of_alikeMaps {ν : Type} [BEq ν] {current previous : IndexMap String ν}
    (halike : previous.AlikeMaps current) (hself : (previous == previous) = true) :
    newIds current previous = [] ∧ changedIds current previous = [] ∧
      goneIds current previous = [] := by
  refine ⟨?_, ?_, ?_⟩
  · apply List.eq_nil_iff_forall_not_mem.mpr
    intro id hmem
    obtain ⟨⟨new, hnew⟩, hnone⟩ := (mem_newIds_iff current previous).mp hmem
    rw [halike.get_none hnone] at hnew
    cases hnew
  · apply List.eq_nil_iff_forall_not_mem.mpr
    intro id hmem
    obtain ⟨old, new, hold, hnew, hne⟩ := (mem_changedIds_iff current previous).mp hmem
    rcases halike.2 id old new hold hnew with rfl | hequal
    · have hsame := (IndexMap.beq_iff.mp hself).2 id old old hold hold
      rw [hsame] at hne
      cases hne
    · rw [hequal] at hne
      cases hne
  · apply List.eq_nil_iff_forall_not_mem.mpr
    intro id hmem
    obtain ⟨⟨old, hold⟩, hnone⟩ := (mem_goneIds_iff current previous).mp hmem
    obtain ⟨new, hnew, _⟩ := halike.exists_right hold
    rw [hnone] at hnew
    cases hnew

/-- A document that equals itself differs from no document like it. -/
theorem diff_isEmpty_of_alike (halike : document.AlikeDocuments other)
    (hself : (document == document) = true) (hkeyed : document.relations.Keyed)
    (hother : other.relations.Keyed) : (other.diffAgainst document).isEmpty = true := by
  obtain ⟨_, hnodes, hedges, hshapes, hmetadata, _⟩ := parts_beq_iff.mp hself
  obtain ⟨hnewNodes, hsameNodes, hgoneNodes⟩ := no_changes_of_alikeMaps halike.nodes hnodes
  obtain ⟨hnewEdges, hsameEdges, hgoneEdges⟩ := no_changes_of_alikeMaps halike.edges hedges
  obtain ⟨hnewShapes, hsameShapes, hgoneShapes⟩ := no_changes_of_alikeMaps halike.shapes hshapes
  have hrelations : (other.relations == document.relations) = true :=
    CanvasRecordRelations.beq_of_holds_iff hother hkeyed fun relation =>
      (halike.relations relation).symm
  rw [diffAgainst_eq, hnewNodes, hnewEdges, hnewShapes, hsameNodes, hsameEdges, hsameShapes,
    hgoneNodes, hgoneEdges, hgoneShapes, ← halike.metadata]
  simp only [CanvasDocumentDiff.isEmpty, bne, hmetadata, hrelations]
  rfl

end CanvasDocument

namespace CanvasMutationJournal

variable {registry : CanvasKindRegistry} {document other : CanvasDocument}
  {transaction : CanvasTransaction} {prepared : CanvasPreparedMutation}
  {stack : List CanvasTransaction} {targets : List CanvasDocument}

/-- Committing the transactions of a stack, the top first, leads from the document
through ones like the targets, each unlike the one before; the registry keeps what they
write. -/
def Retraces (registry : CanvasKindRegistry) :
    CanvasDocument → List CanvasTransaction → List CanvasDocument → Prop
  | _, [], [] => True
  | document, transaction :: rest, target :: targets =>
    ¬ document.AlikeDocuments target ∧ EveryWritten registry.Keeps transaction.commands ∧
      ∃ prepared, prepareWithKindRegistry document transaction registry = .ok prepared ∧
        prepared.document.AlikeDocuments target ∧
        Retraces registry prepared.document rest targets
  | _, _, _ => False

namespace Retraces

theorem congr (hregistry : registry.Idempotent) (halike : document.AlikeDocuments other)
    (hvalid : document.Valid) (hother : other.Valid) (hsettled : SettledRecords registry other)
    (h : Retraces registry document stack targets) : Retraces registry other stack targets := by
  induction stack generalizing document other targets with
  | nil => cases targets <;> exact h
  | cons transaction rest ih =>
    cases targets with
    | nil => exact h.elim
    | cons target targets =>
      obtain ⟨hunlike, hkept, prepared, hprepared, htarget, hrest⟩ := h
      obtain ⟨counterpart, hcounterpart, hresult⟩ :=
        prepare_alike_settled hregistry halike hvalid hother hsettled hprepared
      refine ⟨fun hlike => hunlike (halike.trans hlike), hkept, counterpart, hcounterpart,
        hresult.symm.trans htarget, ?_⟩
      exact ih hresult (prepare_valid hvalid hprepared) (prepare_valid hother hcounterpart)
        (prepare_settled hregistry hother hsettled hcounterpart).1 hrest

/-- The result of a mutation leads back through its inverse. -/
theorem push (hregistry : registry.Idempotent) (hvalid : document.Valid)
    (hsettled : SettledRecords registry document)
    (hprepared : prepareWithKindRegistry document transaction registry = .ok prepared)
    (hunlike : ¬ document.AlikeDocuments prepared.document)
    {target : CanvasDocument} (htarget : document.AlikeDocuments target)
    (h : Retraces registry document stack targets) :
    Retraces registry prepared.document (prepared.committed.inverse :: stack)
      (target :: targets) := by
  obtain ⟨undone, hundone, hcontents⟩ := prepare_inverse_settled hregistry hvalid hsettled hprepared
  have hresult := prepare_valid hvalid hprepared
  obtain ⟨hresultSettled, hkept⟩ := prepare_settled hregistry hvalid hsettled hprepared
  have halike := hcontents.alike
  refine ⟨fun hlike => hunlike (htarget.trans hlike.symm), hkept, undone, hundone,
    halike.trans htarget, ?_⟩
  exact congr hregistry halike.symm hvalid (prepare_valid hresult hundone)
    (prepare_settled hregistry hresult hresultSettled hundone).1 h

end Retraces

end CanvasMutationJournal

inductive HistoryCall where
  | commit (transaction : CanvasTransaction)
  | undo
  | redo

/-- A store with the documents of its commits, the latest first and the one before
them last, and how many of the commits are undone. -/
structure HistoryWalk where
  store : CanvasStore
  documents : List CanvasDocument
  undone : Nat

namespace HistoryWalk

def start (store : CanvasStore) : HistoryWalk := ⟨store, [store.document], 0⟩

/-- The call on the store, next to the number of undos without redos.  A commit ends
the undone ones. -/
def call (walk : HistoryWalk) : HistoryCall → HistoryWalk
  | .commit transaction =>
    match walk.store.commitTransaction transaction with
    | (.ok (some _), store) => ⟨store, store.document :: walk.documents.drop walk.undone, 0⟩
    | (_, store) => { walk with store }
  | .undo =>
    { walk with
      store := walk.store.undo.2
      undone := min (walk.undone + 1) (walk.documents.length - 1) }
  | .redo => { walk with store := walk.store.redo.2, undone := walk.undone - 1 }

def walks : Machine HistoryWalk HistoryCall Unit where
  step walk call := some ((), walk.call call)

/-- The document is the one that the number of undone commits says, and the history can
be walked on, in a debug build by an entry that equals itself. -/
structure Determined (walk : HistoryWalk) : Prop where
  document : ∃ target, walk.documents[walk.undone]? = some target ∧
    walk.store.document.AlikeDocuments target ∧
    ((target == target) = true → (walk.store.document == target) = true)
  undoes : ∃ changed next, walk.store.undo = (.ok changed, next)
  redoes : ∃ changed next, walk.store.redo = (.ok changed, next)
  asserts : ∀ direction, walk.store.nextEntryReflexive direction = true →
      walk.store.passesAssertion direction = true

/-- A redo finds an entry when commits are undone, the entry of an undo or a redo equals
itself, and a commit to a document that does not equal itself changes its contents. -/
def Permits (walk : HistoryWalk) : HistoryCall → Prop
  | .commit transaction =>
    (walk.store.document == walk.store.document) = true ∨
      ∀ normalized, walk.store.kindRegistry.normalizeTransaction transaction = .ok normalized →
        ¬ walk.store.document.AlikeDocuments
          (walk.store.document.effects normalized.commands).pruneMissingRelations
  | .undo => walk.store.nextEntryReflexive .undo = true
  | .redo => (walk.undone = 0 ∨ walk.store.history.redoStack ≠ []) ∧
      walk.store.nextEntryReflexive .redo = true

/-- The stacks lead from the document through the documents around it: the undo stack
through all before it, the redo stack through the first of those after it. -/
structure Follows (registry : CanvasKindRegistry) (store : CanvasStore)
    (past : List CanvasDocument) (current : CanvasDocument) (future : List CanvasDocument) :
    Prop where
  kindRegistry : store.kindRegistry = registry
  valid : store.document.Valid
  settled : SettledRecords registry store.document
  alike : store.document.AlikeDocuments current
  documents : ∀ document ∈ past ++ current :: future, document.Valid
  undo : Retraces registry store.document store.history.undoStack past
  redo : ∃ near, near <+: future ∧ Retraces registry store.document store.history.redoStack near

/-- The documents of a walk, seen from the one it is at. -/
def At (registry : CanvasKindRegistry) (walk : HistoryWalk) : Prop :=
  ∃ past current future, walk.documents = future.reverse ++ current :: past ∧
    walk.undone = future.length ∧ Follows registry walk.store past current future

section Steps

variable {registry : CanvasKindRegistry} {store : CanvasStore} {past future : List CanvasDocument}
  {current : CanvasDocument}

section

variable (hregistry : registry.Idempotent)

include hregistry

variable (h : Follows registry store past current future)

include h

variable {transaction : CanvasTransaction}

/-- A stored entry that leads to an unlike document changes something and has an
inverse. -/
theorem Follows.changes {prepared : CanvasPreparedMutation}
    (hprepared : prepareWithKindRegistry store.document transaction registry = .ok prepared)
    (hunlike : ¬ store.document.AlikeDocuments prepared.document) :
    prepared.committed.diff.isEmpty = false ∧ prepared.committed.inverse.isEmpty = false := by
  constructor
  · rw [Bool.eq_false_iff]
    exact fun hdiff => hunlike (alike_of_prepare_diff h.valid hprepared hdiff)
  · rw [Bool.eq_false_iff]
    intro hempty
    exact hunlike (alike_of_inverse_isEmpty hregistry h.valid h.settled hprepared hempty).symm

theorem Follows.congr {document : CanvasDocument}
    (halike : store.document.AlikeDocuments document) (hvalid : document.Valid)
    (hsettled : SettledRecords registry document) :
    Follows registry { store with document } past current future := by
  obtain ⟨near, hnear, hredo⟩ := h.redo
  exact ⟨h.kindRegistry, hvalid, hsettled, halike.symm.trans h.alike, h.documents,
    h.undo.congr hregistry halike h.valid hvalid hsettled,
    near, hnear, hredo.congr hregistry halike h.valid hvalid hsettled⟩

omit hregistry in
theorem Follows.nextEntry_kept {direction : CanvasStoreHistoryDirection}
    {entry : CanvasTransaction} (hentry : store.nextEntry direction = some entry) :
    EveryWritten store.kindRegistry.Keeps entry.commands := by
  have hkept : ∀ {document : CanvasDocument} {stack : List CanvasTransaction}
      {targets : List CanvasDocument}, Retraces registry document stack targets →
      stack.head? = some entry → EveryWritten registry.Keeps entry.commands := by
    intro document stack targets hretraces hhead
    obtain ⟨rest, rfl⟩ := List.head?_eq_some_iff.mp hhead
    cases targets with
    | nil => exact hretraces.elim
    | cons target targets => exact hretraces.2.1
  rw [h.kindRegistry]
  cases direction with
  | undo => exact hkept h.undo hentry
  | redo =>
    obtain ⟨near, _, hredo⟩ := h.redo
    exact hkept hredo hentry

/-- Undo goes to the document before, if there is one. -/
theorem Follows.undo_step : (past = [] ∧ store.undo = (.ok false, store)) ∨
      ∃ target rest changed next, past = target :: rest ∧ store.undo = (.ok changed, next) ∧
        Follows registry next rest target (current :: future) := by
  have hundo := h.undo
  cases hstack : store.history.undoStack with
  | nil =>
    rw [hstack] at hundo
    cases past with
    | nil => exact .inl ⟨rfl, undo_of_isEmpty hstack⟩
    | cons target rest => exact hundo.elim
  | cons transaction stack =>
    rw [hstack] at hundo
    cases past with
    | nil => exact hundo.elim
    | cons target rest =>
      right
      obtain ⟨hunlike, _, prepared, hprepared, htarget, hrest⟩ := hundo
      have hmoves : ¬ store.document.AlikeDocuments prepared.document :=
        fun hlike => hunlike (hlike.trans htarget)
      obtain ⟨hdiff, hinverse⟩ := h.changes hregistry hprepared hmoves
      obtain ⟨near, hnear, hredo⟩ := h.redo
      refine ⟨target, rest, _, _, rfl, undo_of_prepare hstack (h.kindRegistry ▸ hprepared), ?_⟩
      rw [applyPreparedUndo_snd]
      simp only [hdiff, popUndo, pushRedo, hinverse, hstack, Bool.false_eq_true, if_false]
      refine ⟨h.kindRegistry, prepare_valid h.valid hprepared,
        (prepare_settled hregistry h.valid h.settled hprepared).1, htarget, ?_, hrest,
        current :: near, List.cons_prefix_cons.mpr ⟨rfl, hnear⟩,
        hredo.push hregistry h.valid h.settled hprepared hmoves h.alike⟩
      intro document hmem
      apply h.documents document
      simp only [List.mem_append, List.mem_cons] at hmem ⊢
      tauto

/-- Redo goes to the document after, and drops the rest of the redo stack. -/
theorem Follows.redo_step : (store.history.redoStack = [] ∧ store.redo = (.ok false, store)) ∨
      ∃ target rest changed next, future = target :: rest ∧ store.redo = (.ok changed, next) ∧
        Follows registry next (current :: past) target rest := by
  obtain ⟨near, hnear, hredo⟩ := h.redo
  cases hstack : store.history.redoStack with
  | nil => exact .inl ⟨rfl, redo_of_isEmpty hstack⟩
  | cons transaction stack =>
    rw [hstack] at hredo
    cases near with
    | nil => exact hredo.elim
    | cons target rest =>
      right
      obtain ⟨more, rfl⟩ := hnear
      obtain ⟨hunlike, _, prepared, hprepared, htarget, hrest⟩ := hredo
      have hmoves : ¬ store.document.AlikeDocuments prepared.document :=
        fun hlike => hunlike (hlike.trans htarget)
      obtain ⟨hdiff, hinverse⟩ := h.changes hregistry hprepared hmoves
      refine ⟨target, rest ++ more, _, _, rfl,
        redo_of_prepare hstack (h.kindRegistry ▸ hprepared), ?_⟩
      rw [applyPreparedRedo_snd]
      simp only [hdiff, popRedo, pushUndo, hinverse, Bool.false_eq_true, if_false]
      refine ⟨h.kindRegistry, prepare_valid h.valid hprepared,
        (prepare_settled hregistry h.valid h.settled hprepared).1, htarget, ?_,
        h.undo.push hregistry h.valid h.settled hprepared hmoves h.alike, [], List.nil_prefix,
        trivial⟩
      intro document hmem
      apply h.documents document
      simp only [List.mem_append, List.mem_cons] at hmem ⊢
      tauto

/-- A commit that is reported leads to a new document with nothing after it; any other
call of it changes nothing. -/
theorem Follows.commit_step (hpermits : (store.document == store.document) = true ∨
      ∀ normalized, registry.normalizeTransaction transaction = .ok normalized →
        ¬ store.document.AlikeDocuments
          (store.document.effects normalized.commands).pruneMissingRelations) :
    (∃ change next, store.commitTransaction transaction = (.ok (some change), next) ∧
      Follows registry next (current :: past) next.document []) ∨
    ∃ result next, store.commitTransaction transaction = (result, next) ∧
      (∀ change, result ≠ .ok (some change)) ∧ Follows registry next past current future := by
  rw [commitTransaction]
  by_cases hempty : transaction.isEmpty = true
  · rw [if_pos hempty]
    exact .inr ⟨_, _, rfl, by simp, h⟩
  rw [if_neg hempty]
  cases hprepare : store.prepareTransaction transaction with
  | error error => exact .inr ⟨_, _, rfl, by simp, h⟩
  | ok prepared =>
    have hprepared : prepareWithKindRegistry store.document transaction registry =
        .ok prepared := by
      rw [prepareTransaction, h.kindRegistry] at hprepare
      exact hprepare
    have hvalid := prepare_valid h.valid hprepared
    have hsettled := (prepare_settled hregistry h.valid h.settled hprepared).1
    cases hdiff : prepared.committed.diff.isEmpty with
    | true =>
      right
      have halike := alike_of_prepare_diff h.valid hprepared hdiff
      refine ⟨.ok none, { store with document := prepared.document }, ?_, by simp,
        h.congr hregistry halike hvalid hsettled⟩
      simp [applyPreparedTransaction, applyPreparedMutation, hdiff]
    | false =>
      left
      have hunlike : ¬ store.document.AlikeDocuments prepared.document := by
        obtain ⟨normalized, _, draft, hnormalized, _, happly, hdocument, _, _, _, _, heq⟩ :=
          prepare_ok_steps hprepared
        rcases hpermits with hself | hchanges
        · intro halike
          have hsame := diff_isEmpty_of_alike halike hself h.valid.isDraft.keyed
            hvalid.isDraft.keyed
          rw [heq] at hdiff
          exact absurd (hsame.symm.trans hdiff) (by simp)
        · rw [hdocument, effects_of_applyAll happly]
          exact hchanges normalized hnormalized
      have hinverse := (h.changes hregistry hprepared hunlike).2
      refine ⟨⟨.pushUndo, prepared.committed, prepared.document⟩, { store with
          document := prepared.document
          history := ⟨prepared.committed.inverse :: store.history.undoStack, []⟩ }, ?_, ?_⟩
      · simp [applyPreparedTransaction, applyPreparedMutation, hdiff,
          pushUndo, hinverse, finishCommittedMutation]
      · refine ⟨h.kindRegistry, hvalid, hsettled, .refl _, ?_, h.undo.push hregistry h.valid
          h.settled hprepared hunlike h.alike, [], List.nil_prefix, trivial⟩
        intro document hmem
        simp only [List.mem_append, List.mem_cons, List.not_mem_nil, or_false] at hmem
        rcases hmem with (rfl | hpast) | rfl
        · exact h.documents _ (by simp)
        · exact h.documents document (List.mem_append_left _ hpast)
        · exact hvalid

end

variable {walk : HistoryWalk}

theorem At.determined (hregistry : registry.Idempotent) (hat : At registry walk) :
    walk.Determined := by
  obtain ⟨past, current, future, hdocuments, hundone, hfollows⟩ := hat
  constructor
  · refine ⟨current, ?_, hfollows.alike, ?_⟩
    · rw [hdocuments, hundone]
      simp
    · have hcurrent := hfollows.documents current (by simp)
      exact hfollows.alike.beq hfollows.valid.isDraft.keyed hcurrent.isDraft.keyed
  · rcases hfollows.undo_step hregistry with ⟨_, hundo⟩ | ⟨_, _, changed, next, _, hundo, _⟩
    · exact ⟨_, _, hundo⟩
    · exact ⟨changed, next, hundo⟩
  · rcases hfollows.redo_step hregistry with ⟨_, hredo⟩ | ⟨_, _, changed, next, _, hredo, _⟩
    · exact ⟨_, _, hredo⟩
    · exact ⟨changed, next, hredo⟩
  · intro direction hself
    exact passesAssertion_of_reflexive hfollows.nextEntry_kept hself

theorem At.call (hregistry : registry.Idempotent) (hat : At registry walk) {call : HistoryCall}
    (hpermits : walk.Permits call) : At registry (walk.call call) := by
  obtain ⟨past, current, future, hdocuments, hundone, hfollows⟩ := hat
  cases call with
  | commit transaction =>
    have hcommit : (walk.store.document == walk.store.document) = true ∨
        ∀ normalized, registry.normalizeTransaction transaction = .ok normalized →
          ¬ walk.store.document.AlikeDocuments
            (walk.store.document.effects normalized.commands).pruneMissingRelations := by
      rw [← hfollows.kindRegistry]
      exact hpermits
    rcases hfollows.commit_step hregistry hcommit with
      ⟨change, next, hresult, hnext⟩ | ⟨result, next, hresult, hnone, hnext⟩
    · refine ⟨current :: past, next.document, [], ?_, ?_, ?_⟩
      · simp [HistoryWalk.call, hresult, hdocuments, hundone]
      · simp [HistoryWalk.call, hresult]
      · simpa [HistoryWalk.call, hresult] using hnext
    · have hcall : walk.call (.commit transaction) = { walk with store := next } := by
        rw [HistoryWalk.call, hresult]
        split
        · next change _ heq => exact absurd (congrArg Prod.fst heq) (hnone change)
        · next heq =>
            obtain ⟨_, rfl⟩ := Prod.mk.inj heq
            rfl
      rw [hcall]
      exact ⟨past, current, future, hdocuments, hundone, hnext⟩
  | undo =>
    rcases hfollows.undo_step hregistry with
      ⟨rfl, hresult⟩ | ⟨target, rest, changed, next, rfl, hresult, hnext⟩
    · refine ⟨[], current, future, hdocuments, ?_, ?_⟩
      · simp [HistoryWalk.call, hdocuments, hundone]
      · simpa [HistoryWalk.call, hresult] using hfollows
    · refine ⟨rest, target, current :: future, ?_, ?_, ?_⟩
      · simp [HistoryWalk.call, hdocuments]
      · simp only [HistoryWalk.call, hdocuments, hundone, List.length_append, List.length_reverse,
          List.length_cons]
        omega
      · simpa [HistoryWalk.call, hresult] using hnext
  | redo =>
    rcases hfollows.redo_step hregistry with
      ⟨hempty, hresult⟩ | ⟨target, rest, changed, next, rfl, hresult, hnext⟩
    · have hzero : walk.undone = 0 := hpermits.1.resolve_right fun hne => hne hempty
      refine ⟨past, current, future, hdocuments, ?_, ?_⟩
      · simp only [HistoryWalk.call]
        omega
      · simpa [HistoryWalk.call, hresult] using hfollows
    · refine ⟨current :: past, target, rest, ?_, ?_, ?_⟩
      · simp [HistoryWalk.call, hdocuments]
      · simp [HistoryWalk.call, hundone]
      · simpa [HistoryWalk.call, hresult] using hnext

end Steps

/-- A store that was made from a valid document, or from one that a kind registry
normalized whose policies change nothing in what they normalized. -/
def Fresh (store : CanvasStore) : Prop :=
  (∃ document : CanvasDocument, document.Valid ∧ store = .new document) ∨
    ∃ (given : CanvasDocument) (registry : CanvasKindRegistry), registry.Idempotent ∧
      CanvasStore.tryNewWithKindRegistry given registry = .ok store

theorem Fresh.at_start {store : CanvasStore} (h : Fresh store) :
    store.kindRegistry.Idempotent ∧ At store.kindRegistry (start store) := by
  have hat : ∀ store : CanvasStore, store.document.Valid → SettledRecords store.kindRegistry
      store.document → store.history = .default → At store.kindRegistry (start store) := by
    intro store hvalid hsettled hhistory
    refine ⟨[], store.document, [], rfl, rfl, rfl, hvalid, hsettled, .refl _, ?_, ?_,
      [], List.nil_prefix, ?_⟩
    · intro document hmem
      obtain rfl : document = store.document := by simpa using hmem
      exact hvalid
    · change Retraces _ _ store.history.undoStack []
      rw [hhistory]
      trivial
    · change Retraces _ _ store.history.redoStack []
      rw [hhistory]
      trivial
  rcases h with ⟨document, hvalid, rfl⟩ | ⟨given, registry, hregistry, hnew⟩
  · exact ⟨openRegistry_idempotent, hat _ hvalid (fun record _ => openRegistry_keeps record) rfl⟩
  · obtain ⟨document, hdocument, hstore⟩ := bind_eq_ok.mp hnew
    rw [pure_eq_ok] at hstore
    subst hstore
    exact ⟨hregistry, hat _ (fromSnapshot_valid hdocument)
      (fromSnapshot_settled hregistry hdocument) rfl⟩

/-- In every run of permitted calls the document is the one that the undos and redos
say, and neither fails. -/
theorem undo_and_redo_walk {store : CanvasStore} {calls : List HistoryCall} {walk : HistoryWalk}
    (hstart : Fresh store) (halong : walks.Along Permits (start store) calls)
    (hrun : walks.run (start store) calls = some walk) : walk.Determined := by
  obtain ⟨hregistry, hat⟩ := hstart.at_start
  have hlast : At store.kindRegistry walk := by
    refine Machine.run_induction ?_ hat halong hrun
    intro before call output after hbefore hpermits hstep
    cases hstep
    exact hbefore.call hregistry hpermits
  exact hlast.determined hregistry

end HistoryWalk

namespace HistoryWitness

open HistoryWalk EditorWitness

variable (walk : HistoryWalk)

/-- `Permits` for documents that equal themselves; the steps in the history ask the same. -/
def permitsChecked : HistoryCall → Bool
  | .commit _ => walk.store.document == walk.store.document
  | .undo => walk.store.nextEntryReflexive .undo
  | .redo => (walk.undone == 0 || !walk.store.history.redoStack.isEmpty) &&
      walk.store.nextEntryReflexive .redo

theorem permits_of_checked (call : HistoryCall)
    (h : permitsChecked walk call = true) : walk.Permits call := by
  cases call with
  | commit transaction => exact .inl h
  | undo => exact h
  | redo =>
    rw [permitsChecked, Bool.and_eq_true, Bool.or_eq_true] at h
    refine ⟨h.1.imp beq_iff_eq.mp fun hredo hempty => ?_, h.2⟩
    simp [hempty] at hredo

def forthAndBack : List HistoryCall :=
  [.commit insertion, .commit movement, .undo, .redo, .undo, .undo, .redo]

theorem undo_and_redo_walk_forthAndBack : ∃ walk,
    walks.run (start (.new resting)) forthAndBack = some walk ∧ walk.Determined ∧
      walk.undone = 1 := by
  have halong : walks.holdsAlong permitsChecked (start (.new resting)) forthAndBack = true := by
    decide
  have hrun : (walks.run (start (.new resting)) forthAndBack).any (·.undone == 1) = true := by
    decide
  rw [any_eq_true] at hrun
  obtain ⟨walk, hwalk, hundone⟩ := hrun
  refine ⟨walk, hwalk, ?_, beq_iff_eq.mp hundone⟩
  exact undo_and_redo_walk (Or.inl ⟨resting, resting_valid, rfl⟩)
    (Machine.Along.mono permits_of_checked (Machine.holdsAlong_iff.mp halong)) hwalk

/-- Two commits, two undos and two redos: the second redo finds nothing. -/
def twiceBack : List HistoryCall :=
  [.commit insertion, .commit movement, .undo, .undo, .redo, .redo]

theorem undo_and_redo_not_walk_twiceBack : ¬ ∀ (document : CanvasDocument)
    (calls : List HistoryCall) (walk : HistoryWalk), document.Valid →
      walks.run (start (.new document)) calls = some walk → walk.Determined := by
  intro h
  have hwrong : (walks.run (start (.new resting)) twiceBack).any (fun walk =>
      walk.documents[walk.undone]?.any fun target =>
        target == target && !(walk.store.document == target)) = true := by
    decide
  rw [any_eq_true] at hwrong
  obtain ⟨walk, hwalk, htarget⟩ := hwrong
  obtain ⟨target, hget, -, hequal⟩ := (h resting twiceBack walk resting_valid hwalk).document
  rw [hget, any_some, Bool.and_eq_true] at htarget
  rw [hequal htarget.1] at htarget
  exact absurd htarget.2 (by simp)

end HistoryWitness

end OpenGpui.Canvas
