/-
Undo.  Replaying the inverse of a transaction leads back to the records before it,
and the relation commands that complete the inverse put back what pruning took.  A
transaction whose result is valid is accepted exactly when each of its commands is
reversible in the draft it is applied to, and what it did is undone by its inverse.
-/
import OpenGpui.Canvas.InverseRecords

namespace OpenGpui.Canvas

open Checked CanvasDocumentBuilder CanvasKindRegistry List Except CanvasNode

namespace CanvasDocument

section Replay

variable {document last follower : CanvasDocument} {commands inverse : List DocumentCommand}

/-- `Undoes` for a list of commands. -/
structure UndoesAll (document follower : CanvasDocument)
    (commands inverse : List DocumentCommand) : Prop where
  restores : document.ReversibleAlong commands →
    ∃ restored, follower.applyAll inverse = .ok restored ∧ restored.Follows document ∧
      follower.ReversibleAlong inverse
  needed : ∀ restored, follower.applyAll inverse = .ok restored → document.ReversibleAlong commands

theorem inverseSegments_cons_ok_iff {command : DocumentCommand} {rest : List DocumentCommand} :
    document.inverseSegments (command :: rest) = .ok inverse ↔
      ∃ segment draft later, document.inverseFor command = .ok segment ∧
        document.apply command = .ok draft ∧ draft.inverseSegments rest = .ok later ∧
        inverse = later ++ segment := by
  rw [inverseSegments, bind_eq_ok]
  constructor
  · rintro ⟨segment, hsegment, hrest⟩
    rw [bind_eq_ok] at hrest
    obtain ⟨draft, hdraft, hrest⟩ := hrest
    rw [bind_eq_ok] at hrest
    obtain ⟨later, hlater, hrest⟩ := hrest
    exact ⟨segment, draft, later, hsegment, hdraft, hlater, (pure_eq_ok.mp hrest).symm⟩
  · rintro ⟨segment, draft, later, hsegment, hdraft, hlater, rfl⟩
    exact ⟨segment, hsegment, bind_eq_ok.mpr ⟨draft, hdraft, bind_eq_ok.mpr ⟨later, hlater, rfl⟩⟩⟩

/-- Commands that are reversible one after another have inverses. -/
theorem inverseSegments_of_reversible (hdraft : document.IsDraft)
    (happly : document.applyAll commands = .ok last)
    (hreversible : document.ReversibleAlong commands) :
    ∃ inverse, document.inverseSegments commands = .ok inverse := by
  induction commands generalizing document with
  | nil => exact ⟨[], rfl⟩
  | cons command rest ih =>
    obtain ⟨draft, hfirst, hrest⟩ := applyAll_cons_ok_iff.mp happly
    obtain ⟨segment, hsegment⟩ := inverseFor_of_reversible hdraft hfirst hreversible.1
    obtain ⟨later, hlater⟩ := ih (apply_isDraft hdraft hfirst) hrest (hreversible.2 draft hfirst)
    exact ⟨later ++ segment, inverseSegments_cons_ok_iff.mpr
      ⟨segment, draft, later, hsegment, hfirst, hlater, rfl⟩⟩

/-- Replaying the inverse of a list of commands, from any document that follows
their result, leads back to the start exactly when they are reversible. -/
theorem undoesAll_of_inverseSegments (hdraft : document.IsDraft)
    (happly : document.applyAll commands = .ok last)
    (hinverse : document.inverseSegments commands = .ok inverse)
    (hfollows : follower.Follows last) : document.UndoesAll follower commands inverse := by
  induction commands generalizing document inverse with
  | nil =>
    cases happly
    cases hinverse
    exact ⟨fun _ => ⟨follower, rfl, hfollows, trivial⟩, fun _ _ => trivial⟩
  | cons command rest ih =>
    obtain ⟨segment, draft, later, hsegment, hfirst, hlater, rfl⟩ :=
      inverseSegments_cons_ok_iff.mp hinverse
    obtain ⟨other, hother, hrest⟩ := applyAll_cons_ok_iff.mp happly
    rw [hfirst, ok.injEq] at hother
    subst hother
    have hnext := ih (apply_isDraft hdraft hfirst) hrest hlater
    constructor
    · intro hreversible
      obtain ⟨middle, hmiddle, hmiddleFollows, halong⟩ :=
        hnext.restores (hreversible.2 draft hfirst)
      obtain ⟨restored, hrestored, hrestoredFollows, hsegmentAlong⟩ :=
        (undoes_of_inverseFor hdraft hfirst hsegment hmiddleFollows).restores hreversible.1
      refine ⟨restored, applyAll_append_ok_iff.mpr ⟨middle, hmiddle, hrestored⟩,
        hrestoredFollows, reversibleAlong_append_iff.mpr ⟨halong, ?_⟩⟩
      intro reached hreached
      rw [hmiddle, ok.injEq] at hreached
      exact hreached ▸ hsegmentAlong
    · intro restored hrestored
      obtain ⟨middle, hmiddle, hsegmentApply⟩ := applyAll_append_ok_iff.mp hrestored
      have hlaterAlong := hnext.needed middle hmiddle
      obtain ⟨reached, hreached, hreachedFollows, _⟩ := hnext.restores hlaterAlong
      rw [hmiddle, ok.injEq] at hreached
      subst hreached
      refine ⟨(undoes_of_inverseFor hdraft hfirst hsegment hreachedFollows).needed restored
        hsegmentApply, ?_⟩
      intro after hafter
      rw [hfirst, ok.injEq] at hafter
      exact hafter ▸ hlaterAlong

theorem follows_prune (document : CanvasDocument) (hkeyed : document.relations.Keyed) :
    document.pruneMissingRelations.Follows document :=
  ⟨relations_only _, hkeyed.prune _, fun _ hholds =>
    (CanvasRecordRelations.holds_prune_iff.mp hholds).1⟩

theorem Follows.wellFormed (hfollows : follower.Follows document)
    (h : document.RelationsWellFormed) : follower.RelationsWellFormed :=
  h.within (fun id => (hfollows.records.containsRecord id).symm) hfollows.keyed hfollows.within

end Replay

variable {document restored : CanvasDocument}

open CanvasRecordRelations

/-- Against a document that holds some of its relations, a document differs by the
relations the other lacks, which are all put. -/
theorem relationChanges_of_within (hkeyed : document.relations.Keyed)
    (hfollows : restored.Follows document) :
    ∃ missing : List CanvasRecordRelation,
      (relationChangesFromDiff document restored).map relationChangeToCommand =
        missing.map setCommand ∧
      ∀ relation, relation ∈ missing ↔
        document.relations.Holds relation ∧ ¬ restored.relations.Holds relation := by
  have hgoneParents : restored.relations.parents.filter (fun relation =>
      document.relations.parentOf relation.child != some relation.parent) = [] := by
    rw [filter_eq_nil_iff]
    intro relation hmem
    have hheld := (parentOf_eq_some_iff hkeyed).mpr (hfollows.within (.parent relation) hmem)
    simp [hheld]
  have hgoneGroups : restored.relations.groups.filter (fun relation =>
      !document.relations.containsRelation (.group relation)) = [] := by
    rw [filter_eq_nil_iff]
    intro relation hmem
    have hheld := (containsRelation_iff hkeyed).mpr (hfollows.within (.group relation) hmem)
    simp [hheld]
  have hgoneBindings : restored.relations.bindings.filter (fun relation =>
      document.relations.binding relation.id != some relation) = [] := by
    rw [filter_eq_nil_iff]
    intro relation hmem
    have hheld := (binding_eq_some_iff hkeyed).mpr ⟨hfollows.within (.binding relation) hmem, rfl⟩
    simp [hheld]
  let newParents := document.relations.parents.filter fun relation =>
    restored.relations.parentOf relation.child != some relation.parent
  let newGroups := document.relations.groups.filter fun relation =>
    !restored.relations.containsRelation (.group relation)
  let newBindings := document.relations.bindings.filter fun relation =>
    restored.relations.binding relation.id != some relation
  refine ⟨newParents.map .parent ++ newGroups.map .group ++ newBindings.map .binding, ?_, ?_⟩
  · simp only [relationChangesFromDiff, hgoneParents, hgoneGroups, hgoneBindings, map_nil,
      nil_append, append_nil, map_append, map_map]
    rfl
  · intro relation
    cases relation with
    | parent relation =>
      have hnew : relation ∈ newParents ↔ document.relations.Holds (.parent relation) ∧
          ¬ restored.relations.Holds (.parent relation) := by
        rw [mem_filter, bne_iff_ne, ne_eq, parentOf_eq_some_iff hfollows.keyed]
        exact Iff.rfl
      simp [hnew]
    | group relation =>
      have hnew : relation ∈ newGroups ↔ document.relations.Holds (.group relation) ∧
          ¬ restored.relations.Holds (.group relation) := by
        rw [mem_filter, Bool.not_eq_true', ← Bool.not_eq_true, containsRelation_iff hfollows.keyed]
        exact Iff.rfl
      simp [hnew]
    | binding relation =>
      have hnew : relation ∈ newBindings ↔ document.relations.Holds (.binding relation) ∧
          ¬ restored.relations.Holds (.binding relation) := by
        rw [mem_filter, bne_iff_ne, ne_eq, binding_eq_some_iff hfollows.keyed, and_iff_left rfl]
        exact Iff.rfl
      simp [hnew]

/-- Putting relations of a document into one that follows it. -/
theorem applyAll_setRelations (hwellFormed : document.RelationsWellFormed)
    (relations : List CanvasRecordRelation)
    (hmem : ∀ relation ∈ relations, document.relations.Holds relation)
    (hfollows : restored.Follows document) :
    ∃ completed, restored.applyAll (relations.map setCommand) = .ok completed ∧
      completed.Follows document ∧ restored.ReversibleAlong (relations.map setCommand) ∧
      ∀ relation, completed.relations.Holds relation ↔
        restored.relations.Holds relation ∨ relation ∈ relations := by
  obtain ⟨hkeyed, hjoined, hends, _⟩ := (relationsWellFormed_iff document).mp hwellFormed
  induction relations generalizing restored with
  | nil => exact ⟨restored, rfl, hfollows, trivial, by simp⟩
  | cons relation rest ih =>
    have hheld := hmem relation mem_cons_self
    have hstored : restored.StoresEnds relation := (hends relation hheld).congr hfollows.records
    have happly : restored.apply (setCommand relation) =
        .ok { restored with relations := restored.relations.upsert relation } :=
      apply_set_ok_iff.mpr ⟨hjoined relation hheld, hstored, rfl⟩
    have hsame : ∀ other, restored.relations.Holds other → other.key = relation.key →
        other = relation :=
      fun other hother hkey => hkeyed.eq_of_key (hfollows.within other hother) hheld hkey
    have hholds : ∀ other, (restored.relations.upsert relation).Holds other ↔
        restored.relations.Holds other ∨ other = relation := by
      intro other
      rw [holds_upsert_iff hfollows.keyed]
      constructor
      · rintro (heq | ⟨hold, _⟩)
        · exact .inr heq
        · exact .inl hold
      · rintro (hold | heq)
        · by_cases hkey : other.key = relation.key
          · exact .inl (hsame other hold hkey)
          · exact .inr ⟨hold, hkey⟩
        · exact .inl heq
    obtain ⟨completed, hcompleted, hfollowsCompleted, halong, hresult⟩ :=
      @ih { restored with relations := restored.relations.upsert relation }
        (fun other hother => hmem other (mem_cons_of_mem _ hother))
        ⟨(relations_only _).trans hfollows.records, hfollows.keyed.upsert relation, by
          intro other hother
          rcases (hholds other).mp hother with hold | rfl
          · exact hfollows.within other hold
          · exact hheld⟩
    refine ⟨completed, applyAll_cons_ok_iff.mpr ⟨_, happly, hcompleted⟩, hfollowsCompleted,
      ⟨?_, ?_⟩, ?_⟩
    · rw [reversible_set_iff hfollows.keyed hstored]
      intro other hother hkey
      rw [hsame other hother hkey]
      exact hstored
    · intro draft hdraft
      rw [happly, ok.injEq] at hdraft
      exact hdraft ▸ halong
    · intro other
      rw [hresult, hholds, mem_cons, or_assoc]

/-- The completed inverse leads from the result to a document with the contents the
transaction started from, and it is reversible itself. -/
theorem completeInverse_ok {current : CanvasDocument} (inverse : CanvasTransaction)
    (hwellFormed : document.RelationsWellFormed)
    (happly : current.applyAll inverse.commands = .ok restored)
    (hfollows : restored.Follows document) (halong : current.ReversibleAlong inverse.commands) :
    ∃ completed final, completeInverseRelationCommands document current inverse = .ok completed ∧
      current.applyAll completed.commands = .ok final ∧ final.SameContents document ∧
      current.ReversibleAlong completed.commands := by
  have hkeyed := ((relationsWellFormed_iff document).mp hwellFormed).1
  have hrestored := hfollows.wellFormed hwellFormed
  obtain ⟨missing, hcommands, hmissing⟩ := relationChanges_of_within hkeyed hfollows
  obtain ⟨final, hfinal, hfinalFollows, hfinalAlong, hresult⟩ :=
    applyAll_setRelations hwellFormed missing (fun relation h => ((hmissing relation).mp h).1)
      hfollows
  have hcontents : final.SameContents document := by
    refine ⟨hfinalFollows.records, hfinalFollows.keyed, hkeyed, fun relation => ?_⟩
    rw [hresult, hmissing]
    constructor
    · rintro (hheld | hheld)
      · exact hfollows.within relation hheld
      · exact hheld.1
    · intro hheld
      by_cases hrest : restored.relations.Holds relation
      · exact .inl hrest
      · exact .inr ⟨hheld, hrest⟩
  have hfinalWellFormed := hfinalFollows.wellFormed hwellFormed
  have hcompleteAlong : current.ReversibleAlong (inverse.commands ++ missing.map setCommand) := by
    rw [reversibleAlong_append_iff]
    refine ⟨halong, fun draft hdraft => ?_⟩
    rw [happly, ok.injEq] at hdraft
    exact hdraft ▸ hfinalAlong
  have hcompleteApply : current.applyAll (inverse.commands ++ missing.map setCommand) =
      .ok final := applyAll_append_ok_iff.mpr ⟨restored, happly, hfinal⟩
  rw [completeInverseRelationCommands, happly]
  simp only [Except.bind, bind]
  rw [pruneMissingRelations_of_wellFormed hrestored, (validateRelations_ok_iff _).mpr hrestored,
    hcommands]
  cases missing with
  | nil =>
    refine ⟨inverse, final, rfl, ?_, hcontents, halong⟩
    simpa using hcompleteApply
  | cons relation rest =>
    refine ⟨{ inverse with commands := inverse.commands ++ (relation :: rest).map setCommand },
      final, ?_, hcompleteApply, hcontents, hcompleteAlong⟩
    rw [hfinal]
    simp only [pruneMissingRelations_of_wellFormed hfinalWellFormed,
      (validateRelations_ok_iff _).mpr hfinalWellFormed]
    rfl

end CanvasDocument

open CanvasDocument

namespace CanvasKindRegistry

theorem openRegistry_normalizeTransaction (transaction : CanvasTransaction) :
    openRegistry.normalizeTransaction transaction = .ok transaction := by
  have hshape : ∀ shape, openRegistry.normalizeShape shape = .ok shape := by
    intro shape
    rw [normalizeShape, openRegistry, IndexMap.get_insert]
    by_cases heq : GROUP_SHAPE_KIND = shape.kind
    · rw [if_pos heq]
      rfl
    · rw [if_neg heq]
      rfl
  have hcommand : ∀ command, openRegistry.normalizeCommand command = .ok command := by
    intro command
    cases command with
    | insertShape shape | updateShape shape => rw [normalizeCommand, hshape]; rfl
    | _ => rfl
  have hcommands : ∀ commands : List DocumentCommand,
      commands.mapM openRegistry.normalizeCommand = .ok commands := by
    intro commands
    induction commands with
    | nil => rfl
    | cons command rest ih =>
      simp [mapM_cons, hcommand, ih, bind, Except.bind, pure, Except.pure]
  rw [normalizeTransaction, hcommands]
  rfl

theorem openRegistry_validateDocument (document : CanvasDocument) :
    openRegistry.validateDocument document = .ok () := by
  have hshape : ∀ shape : CanvasShape,
      validateRecord (openRegistry.shapeKinds.get shape.kind) shape = .ok () := by
    intro shape
    rw [openRegistry, IndexMap.get_insert]
    by_cases heq : GROUP_SHAPE_KIND = shape.kind
    · rw [if_pos heq]
      rfl
    · rw [if_neg heq]
      rfl
  rw [validateDocument, check_bind_eq_ok, check_bind_eq_ok, forM_eq_ok, forM_eq_ok, forM_eq_ok]
  exact ⟨fun _ _ => rfl, fun _ _ => rfl, fun shape _ => hshape shape⟩

end CanvasKindRegistry

namespace CanvasMutationJournal

section Prepare

variable {document draft : CanvasDocument} {transaction normalized : CanvasTransaction}
  {kindRegistry : CanvasKindRegistry} {prepared : CanvasPreparedMutation}

/-- A transaction whose result is valid can be prepared exactly when its commands
are reversible, and the inverse it comes with leads back. -/
theorem prepare_ok_iff (hvalid : document.Valid)
    (hnormalized : kindRegistry.normalizeTransaction transaction = .ok normalized)
    (happly : document.applyAll normalized.commands = .ok draft)
    (hresult : draft.pruneMissingRelations.validateIntegrity = .ok ())
    (hschema : kindRegistry.validateDocument draft.pruneMissingRelations = .ok ()) :
    (∃ prepared, prepareWithKindRegistry document transaction kindRegistry = .ok prepared) ↔
      document.ReversibleAlong normalized.commands := by
  have hdraft := hvalid.isDraft
  have hfollows := follows_prune draft (applyAll_isDraft hdraft happly).keyed
  have hwellFormed := hvalid.wellFormed
  constructor
  · rintro ⟨prepared, hprepared⟩
    obtain ⟨other, inverse, result, hother, hinverse, hresult, hdocument, _, _, _, hcomplete, _⟩ :=
      prepare_ok_steps hprepared
    rw [hnormalized, ok.injEq] at hother
    subst hother
    rw [happly, ok.injEq] at hresult
    subst hresult
    rw [completeInverseRelationCommands, bind_eq_ok] at hcomplete
    obtain ⟨restored, hreplay, _⟩ := hcomplete
    rw [hdocument] at hreplay
    exact (undoesAll_of_inverseSegments hdraft happly hinverse hfollows).needed restored hreplay
  · intro hreversible
    obtain ⟨inverse, hinverse⟩ := inverseSegments_of_reversible hdraft happly hreversible
    obtain ⟨restored, hreplay, hrestored, halong⟩ :=
      (undoesAll_of_inverseSegments hdraft happly hinverse hfollows).restores hreversible
    obtain ⟨completed, _, hcomplete, _⟩ :=
      completeInverse_ok ⟨inverse, .empty⟩ hwellFormed hreplay hrestored halong
    have hrelations := ((validateRelations_ok_iff _).mpr
      ((validateIntegrity_ok_iff _).mp hresult).2)
    rw [prepareWithKindRegistry, hnormalized]
    simp only [invertTransaction, liftSchema, Except.mapError, hinverse, happly, hrelations,
      hschema, hcomplete, bind, Except.bind, pure, Except.pure]
    exact ⟨_, rfl⟩

/-- The inverse of a prepared mutation leads back to the contents of the document,
by commands that are reversible in turn. -/
theorem inverse_restores (hvalid : document.Valid)
    (h : prepareWithKindRegistry document transaction kindRegistry = .ok prepared) :
    ∃ final, prepared.document.applyAll prepared.committed.inverse.commands = .ok final ∧
      final.SameContents document ∧
      prepared.document.ReversibleAlong prepared.committed.inverse.commands := by
  obtain ⟨normalized, inverse, draft, _, hinverse, happly, hdocument, _, _, _, hcomplete, _⟩ :=
    prepare_ok_steps h
  have hdraft := hvalid.isDraft
  have hfollows := follows_prune draft (applyAll_isDraft hdraft happly).keyed
  rw [← hdocument] at hfollows
  have hundoes := undoesAll_of_inverseSegments hdraft happly hinverse hfollows
  have hreplayed := hcomplete
  rw [completeInverseRelationCommands, bind_eq_ok] at hreplayed
  obtain ⟨reached, hreached, _⟩ := hreplayed
  obtain ⟨restored, hreplay, hrestored, halong⟩ :=
    hundoes.restores (hundoes.needed reached hreached)
  obtain ⟨completed, final, hcompleted, hfinal, hcontents, hfinalAlong⟩ :=
    completeInverse_ok ⟨inverse, .empty⟩ hvalid.wellFormed hreplay hrestored halong
  rw [hcomplete, ok.injEq] at hcompleted
  subst hcompleted
  exact ⟨final, hfinal, hcontents, hfinalAlong⟩

end Prepare

variable {document after : CanvasDocument} {transaction : CanvasTransaction}
  {kindRegistry : CanvasKindRegistry} {committed : CanvasCommittedMutation}

/-- The inverse that comes with a prepared mutation is accepted in turn, and brings
the contents back, by any registry that keeps it and accepts those contents. -/
theorem prepare_inverse {prepared : CanvasPreparedMutation} {other : CanvasKindRegistry}
    (hvalid : document.Valid)
    (h : prepareWithKindRegistry document transaction kindRegistry = .ok prepared)
    (hkept : other.normalizeTransaction prepared.committed.inverse = .ok prepared.committed.inverse)
    (haccepts : ∀ final, final.SameContents document → other.validateDocument final = .ok ()) :
    ∃ undone, prepareWithKindRegistry prepared.document prepared.committed.inverse other =
      .ok undone ∧ undone.document.SameContents document := by
  obtain ⟨final, hfinal, hcontents, halong⟩ := inverse_restores hvalid h
  have hfinalValid : final.validateIntegrity = .ok () := by
    rw [validateIntegrity_ok_iff]
    refine ⟨hcontents.records.recordsValid hvalid.recordsValid, ?_⟩
    exact hvalid.wellFormed.within (fun id => (hcontents.records.containsRecord id).symm)
      hcontents.keyed
      fun relation hholds => (hcontents.relations relation).mp hholds
  have hprune := pruneMissingRelations_of_wellFormed
    ((validateIntegrity_ok_iff final).mp hfinalValid).2
  obtain ⟨undone, hundone⟩ := (prepare_ok_iff (prepare_valid hvalid h) hkept hfinal
    (hprune.symm ▸ hfinalValid) (hprune.symm ▸ haccepts final hcontents)).mpr halong
  obtain ⟨_, _, draft, hnormalized, _, hdraft, hdocument, _⟩ := prepare_ok_steps hundone
  rw [hkept, ok.injEq] at hnormalized
  subst hnormalized
  rw [hfinal, ok.injEq] at hdraft
  subst hdraft
  refine ⟨undone, hundone, ?_⟩
  rw [hdocument, hprune]
  exact hcontents

/-- Committing the inverse of a commit succeeds and brings the contents back. -/
theorem commit_inverse (hvalid : document.Valid)
    (h : commitWithKindRegistry document transaction kindRegistry = (.ok committed, after)) :
    ∃ undone restored, commit after committed.inverse = (.ok undone, restored) ∧
      restored.SameContents document := by
  rw [commitWithKindRegistry_ok_iff] at h
  obtain ⟨prepared, hprepared, hcontents⟩ := prepare_inverse hvalid h
    (openRegistry_normalizeTransaction committed.inverse)
    fun final _ => openRegistry_validateDocument final
  exact ⟨prepared.committed, prepared.document, commitWithKindRegistry_ok_iff.mpr hprepared,
    hcontents⟩

/-- Undo and redo.  The inverse of a commit is accepted and brings the records and
relations back, so that the document is equal to the one before when that is equal
to itself; and the inverse of this commit brings back what the commit led to. -/
theorem commit_undo_redo (hvalid : document.Valid)
    (h : commitWithKindRegistry document transaction kindRegistry = (.ok committed, after)) :
    ∃ undone restored, commit after committed.inverse = (.ok undone, restored) ∧
      restored.SameContents document ∧
      ((document == document) = true → (restored == document) = true) ∧
      ∃ redone again, commit restored undone.inverse = (.ok redone, again) ∧
        again.SameContents after ∧ ((after == after) = true → (again == after) = true) := by
  obtain ⟨undone, restored, hundo, hrestored⟩ := commit_inverse hvalid h
  rw [commitWithKindRegistry_ok_iff] at h
  obtain ⟨redone, again, hredo, hagain⟩ := commit_inverse (prepare_valid hvalid h) hundo
  exact ⟨undone, restored, hundo, hrestored, hrestored.beq, redone, again, hredo, hagain,
    hagain.beq⟩

/-- A transaction whose commands apply one after another, and whose pruned result
passes every check, is accepted exactly when each command is reversible in the draft
it is applied to. -/
theorem commit_accepted_iff {draft : CanvasDocument} {normalized : CanvasTransaction}
    (hvalid : document.Valid)
    (hnormalized : kindRegistry.normalizeTransaction transaction = .ok normalized)
    (happly : document.applyAll normalized.commands = .ok draft)
    (hresult : draft.pruneMissingRelations.validateIntegrity = .ok ())
    (hschema : kindRegistry.validateDocument draft.pruneMissingRelations = .ok ()) :
    (∃ committed after, commitWithKindRegistry document transaction kindRegistry =
      (.ok committed, after)) ↔ document.ReversibleAlong normalized.commands := by
  rw [← prepare_ok_iff hvalid hnormalized happly hresult hschema]
  constructor
  · rintro ⟨committed, after, hcommit⟩
    exact ⟨⟨after, committed⟩, commitWithKindRegistry_ok_iff.mp hcommit⟩
  · rintro ⟨⟨after, committed⟩, hprepared⟩
    exact ⟨committed, after, commitWithKindRegistry_ok_iff.mpr hprepared⟩

/-- An application that registers nothing commits every transaction whose commands apply
and are reversible, when they lead to a valid document. -/
theorem commit_of_applies (hvalid : document.Valid)
    (happly : document.applyAll transaction.commands = .ok after) (hafter : after.Valid)
    (hreversible : document.ReversibleAlong transaction.commands) :
    ∃ committed, commit document transaction = (.ok committed, after) := by
  have hprune := pruneMissingRelations_of_wellFormed hafter.wellFormed
  have hnormalized := openRegistry_normalizeTransaction transaction
  obtain ⟨prepared, hprepared⟩ := (prepare_ok_iff hvalid hnormalized happly (hprune.symm ▸
    hafter.integrity) (openRegistry_validateDocument _)).mpr hreversible
  obtain ⟨_, _, draft, hsame, _, hdraft, hdocument, _⟩ := prepare_ok_steps hprepared
  rw [hnormalized, ok.injEq] at hsame
  subst hsame
  rw [happly, ok.injEq] at hdraft
  subst hdraft
  refine ⟨prepared.committed, commitWithKindRegistry_ok_iff.mpr ?_⟩
  rw [hprepared, ← hprune, ← hdocument]

end CanvasMutationJournal

namespace UndoWitness

open CanvasMutationJournal

def origin : Point := ⟨.finite 0, .finite 0⟩

def extent : Size := ⟨.finite 10, .finite 10⟩

/-- A node in a frame, beside a second frame. -/
def calls : List BuilderCall :=
  [.addNode (new "card" origin extent), .addNode (new "note" origin extent),
    .addEdge (CanvasEdge.new "card-note" ⟨"card", none⟩ ⟨"note", none⟩),
    .addShape (CanvasShape.new "frame" ⟨origin, extent⟩),
    .addShape (CanvasShape.new "other" ⟨origin, extent⟩),
    .withRelations ⟨[⟨.node "card", .shape "frame"⟩], [⟨.shape "frame", .edge "card-note"⟩], []⟩]

def framed : CanvasDocument := (CanvasDocumentBuilder.afterCalls calls).document

theorem framed_valid : framed.Valid := by
  have hbuild : (afterCalls calls).build = .ok framed := rfl
  exact builds_valid (.inl hbuild)

/-- Takes the node away, with its edge and their relations. -/
def removal : CanvasTransaction := .new [.removeNode "card", .removeShape "other"]

/-- What a commit returned, when it succeeded. -/
theorem commit_of_isSome {document : CanvasDocument} {transaction : CanvasTransaction}
    (h : (commit document transaction).1.toOption.isSome = true) :
    ∃ committed, commit document transaction =
      (.ok committed, (commit document transaction).2) := by
  cases hresult : commit document transaction with
  | mk result after =>
    cases result with
    | error error => simp [hresult, Except.toOption] at h
    | ok committed => exact ⟨committed, rfl⟩

theorem commit_undo_redo_removal : ∃ committed after undone restored,
    commit framed removal = (.ok committed, after) ∧
      commit after committed.inverse = (.ok undone, restored) ∧
      (after.edges.keys, after.relations) = ([], .default) ∧ (restored == framed) = true := by
  have hcommit : (commit framed removal).1.toOption.isSome = true := by decide
  have hself : (framed == framed) = true := by decide
  have hgone : ((commit framed removal).2.edges.keys, (commit framed removal).2.relations) =
      ([], .default) := by decide
  obtain ⟨committed, hcommitted⟩ := commit_of_isSome hcommit
  obtain ⟨undone, restored, hundo, _, hequal, _⟩ := commit_undo_redo framed_valid hcommitted
  exact ⟨committed, _, undone, restored, hcommitted, hundo, hgone, hequal hself⟩

/-- A document whose node has no position. -/
def unplaced : CanvasDocument :=
  (CanvasDocumentBuilder.afterCalls [.addNode (new "card" ⟨.nan, .nan⟩ extent)]).document

theorem unplaced_valid : unplaced.Valid := by
  have hbuild : (afterCalls
      [.addNode (new "card" ⟨.nan, .nan⟩ extent)]).build = .ok unplaced := rfl
  exact builds_valid (.inl hbuild)

/-- Even a transaction that does nothing is not undone to an equal document. -/
theorem commit_undo_not_equal_unplaced : ¬ ∀ (document after : CanvasDocument)
    (transaction : CanvasTransaction) (committed : CanvasCommittedMutation), document.Valid →
      commit document transaction = (.ok committed, after) →
        ∃ undone restored, commit after committed.inverse = (.ok undone, restored) ∧
          (restored == document) = true := by
  intro h
  obtain ⟨undone, restored, hundo, hequal⟩ := h unplaced unplaced (.new []) _ unplaced_valid rfl
  have hrestored : restored = unplaced := congrArg Prod.snd hundo.symm
  rw [hrestored] at hequal
  exact absurd hequal (by decide)

/-- Moves the node to the other frame while its own is removed. -/
def reparenting : CanvasTransaction :=
  .new [.removeShape "frame", .setRecordParent (.node "card") (.shape "other")]

theorem commit_accepted_iff_removal :
    (∃ committed after, commitWithKindRegistry framed removal .openRegistry =
      (.ok committed, after)) ↔ framed.ReversibleAlong removal.commands := by
  have happly : framed.applyAll removal.commands =
      .ok ((framed.applyAll removal.commands).toOption.getD .default) := rfl
  exact commit_accepted_iff framed_valid
    (openRegistry_normalizeTransaction removal) happly (by decide)
    (openRegistry_validateDocument _)

/-- The inverse would first put the node back into a frame that is not there yet. -/
theorem commit_not_accepted_reparenting : ¬ ∀ (document draft : CanvasDocument)
    (transaction : CanvasTransaction), document.Valid →
      document.applyAll transaction.commands = .ok draft →
      draft.pruneMissingRelations.validateIntegrity = .ok () →
        ∃ committed after, commit document transaction = (.ok committed, after) := by
  intro h
  have happly : framed.applyAll reparenting.commands =
      .ok ((framed.applyAll reparenting.commands).toOption.getD .default) := rfl
  obtain ⟨committed, after, hcommit⟩ := h framed _ reparenting framed_valid happly
    (by decide)
  have hfailed : (commit framed reparenting).1.toOption.isNone = true := by decide
  rw [hcommit] at hfailed
  exact absurd hfailed (by simp [Except.toOption])

end UndoWitness

end OpenGpui.Canvas
