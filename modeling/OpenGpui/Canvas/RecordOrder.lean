/-
The order of the records of a document, in which records of one z-index are stacked,
and what undoing a transaction makes of it.  No command says where a record goes: a
record that comes back is stored after the others.
-/
import OpenGpui.Canvas.Undo
import OpenGpui.Library.Restacking

namespace OpenGpui.Canvas

open Checked CanvasKindRegistry IndexMap List OrderEdit

namespace CanvasDocument

/-- The records of a kind in the order in which a document goes through them. -/
def recordOrder (document : CanvasDocument) : CanvasRecordKind → List String
  | .node => document.nodes.keys
  | .edge => document.edges.keys
  | .shape => document.shapes.keys

/-- What a command does to the order of a kind of records. -/
def orderEdit (document : CanvasDocument) (kind : CanvasRecordKind) :
    DocumentCommand → OrderEdit String
  | .insertNode node => if kind = .node then .put node.id else .keep
  | .insertEdge edge => if kind = .edge then .put edge.id else .keep
  | .insertShape shape => if kind = .shape then .put shape.id else .keep
  | .removeNode id =>
    match kind with
    | .node => .take [id]
    | .edge => .take ((document.incidentEdges id).map (·.id))
    | .shape => .keep
  | .removeEdge id => if kind = .edge then .take [id] else .keep
  | .removeShape id => if kind = .shape then .take [id] else .keep
  | _ => .keep

/-- What some commands do to it, one after another. -/
def orderEdits (document : CanvasDocument) (kind : CanvasRecordKind) :
    List DocumentCommand → List (OrderEdit String)
  | [] => []
  | command :: rest => document.orderEdit kind command ::
    (document.effect command).orderEdits kind rest

section Apply

variable {document after : CanvasDocument}

theorem recordOrder_nodup (document : CanvasDocument) (kind : CanvasRecordKind) :
    (document.recordOrder kind).Nodup := by
  cases kind with
  | node => exact document.nodes.nodup
  | edge => exact document.edges.nodup
  | shape => exact document.shapes.nodup

variable {command : DocumentCommand}

/-- Commands on relations leave the records where they are. -/
theorem recordOrder_of_relation (hrelation : ¬ IsRecordCommand command)
    (happly : document.apply command = .ok after) (kind : CanvasRecordKind) :
    after.recordOrder kind = document.recordOrder kind := by
  rw [effect_of_apply happly]
  cases command with
  | setRecordParent | clearRecordParent | addRecordToGroup | removeRecordFromGroup
  | setRecordBinding | removeRecordBinding => cases kind <;> rfl
  | _ => exact absurd trivial hrelation

variable {commands : List DocumentCommand}

theorem recordOrder_of_relations (hrelations : ∀ command ∈ commands, ¬ IsRecordCommand command)
    (happly : document.applyAll commands = .ok after) (kind : CanvasRecordKind) :
    after.recordOrder kind = document.recordOrder kind := by
  induction commands generalizing document with
  | nil =>
    cases happly
    rfl
  | cons command rest ih =>
    obtain ⟨draft, hfirst, hrest⟩ := applyAll_cons_ok_iff.mp happly
    rw [ih (fun other hmem => hrelations other (mem_cons_of_mem _ hmem)) hrest,
      recordOrder_of_relation (hrelations command mem_cons_self) hfirst]

/-- The edges that a node takes along, as they are stored. -/
theorem edges_withoutNode_keys (hkeyed : document.WellKeyed) (id : NodeId) :
    (document.withoutNode id).edges.keys =
      document.edges.keys.filter (· ∉ (document.incidentEdges id).map (·.id)) := by
  refine keys_retain_of_iff fun key edge hget => ?_
  have hname : edge.id = key := hkeyed.edges key edge hget
  rw [mem_map]
  constructor
  · rintro haway ⟨other, hother, hsame⟩
    obtain ⟨hstored, hat⟩ := (mem_incidentEdges_iff hkeyed).mp hother
    rw [hsame, hget, Option.some.injEq] at hstored
    rw [← hstored] at hat
    simp only [Bool.and_eq_true, bne_iff_ne, Bool.or_eq_true, beq_iff_eq] at haway hat
    exact hat.elim haway.1 haway.2
  · intro hfar
    by_contra haway
    refine hfar ⟨edge, (mem_incidentEdges_iff hkeyed).mpr ⟨hname ▸ hget, ?_⟩, hname⟩
    simp only [Bool.and_eq_true, bne_iff_ne, not_and_or, not_not] at haway
    simpa only [Bool.or_eq_true, beq_iff_eq] using haway

/-- A command that applies fits the order of each kind, and edits it. -/
theorem apply_recordOrder (hkeyed : document.WellKeyed)
    (happly : document.apply command = .ok after) (kind : CanvasRecordKind) :
    (document.orderEdit kind command).Fits (document.recordOrder kind) ∧
      after.recordOrder kind =
        (document.orderEdit kind command).run (document.recordOrder kind) := by
  have habsent : ∀ {ν : Type} {records : IndexMap String ν} {key : String},
      records.get key = none → key ∉ records.keys :=
    fun hnone => (lookup_eq_none_iff _ _).mp hnone
  have hstored : ∀ {ν : Type} {records : IndexMap String ν} {key : String},
      (∃ record, records.get key = some record) →
        [key].Nodup ∧ ∀ other ∈ [key], other ∈ records.keys := by
    rintro ν records key hrecord
    refine ⟨nodup_singleton key, fun other hmem => ?_⟩
    rw [mem_singleton] at hmem
    exact hmem ▸ mem_keys_iff.mpr (containsKey_iff.mpr hrecord)
  cases command with
  | insertNode node =>
    obtain ⟨hnone, _, rfl⟩ := apply_insertNode_ok_iff.mp happly
    cases kind with
    | node => exact ⟨habsent hnone, keys_insert_of_absent hnone⟩
    | edge | shape => exact ⟨trivial, rfl⟩
  | updateNode node =>
    obtain ⟨⟨old, hold⟩, _, _, rfl⟩ := apply_updateNode_ok_iff.mp happly
    cases kind with
    | node => exact ⟨trivial, keys_insert_of_stored hold⟩
    | edge | shape => exact ⟨trivial, rfl⟩
  | removeNode id =>
    obtain ⟨hnode, rfl⟩ := apply_removeNode_ok_iff.mp happly
    cases kind with
    | node => exact ⟨hstored hnode, keys_erase document.nodes id⟩
    | edge =>
      refine ⟨⟨incidentEdges_ids_nodup hkeyed id, ?_⟩, edges_withoutNode_keys hkeyed id⟩
      intro key hmem
      obtain ⟨edge, hedge, rfl⟩ := mem_map.mp hmem
      exact mem_keys_iff.mpr
        (containsKey_iff.mpr ⟨edge, ((mem_incidentEdges_iff hkeyed).mp hedge).1⟩)
    | shape => exact ⟨trivial, rfl⟩
  | insertEdge edge =>
    obtain ⟨hnone, _, rfl⟩ := apply_insertEdge_ok_iff.mp happly
    cases kind with
    | node | shape => exact ⟨trivial, rfl⟩
    | edge => exact ⟨habsent hnone, keys_insert_of_absent hnone⟩
  | updateEdge edge =>
    obtain ⟨⟨old, hold⟩, _, rfl⟩ := apply_updateEdge_ok_iff.mp happly
    cases kind with
    | node | shape => exact ⟨trivial, rfl⟩
    | edge => exact ⟨trivial, keys_insert_of_stored hold⟩
  | removeEdge id =>
    obtain ⟨hedge, rfl⟩ := apply_removeEdge_ok_iff.mp happly
    cases kind with
    | node | shape => exact ⟨trivial, rfl⟩
    | edge => exact ⟨hstored hedge, keys_erase document.edges id⟩
  | insertShape shape =>
    obtain ⟨hnone, rfl⟩ := apply_insertShape_ok_iff.mp happly
    cases kind with
    | node | edge => exact ⟨trivial, rfl⟩
    | shape => exact ⟨habsent hnone, keys_insert_of_absent hnone⟩
  | updateShape shape =>
    obtain ⟨⟨old, hold⟩, rfl⟩ := apply_updateShape_ok_iff.mp happly
    cases kind with
    | node | edge => exact ⟨trivial, rfl⟩
    | shape => exact ⟨trivial, keys_insert_of_stored hold⟩
  | removeShape id =>
    obtain ⟨hshape, rfl⟩ := apply_removeShape_ok_iff.mp happly
    cases kind with
    | node | edge => exact ⟨trivial, rfl⟩
    | shape => exact ⟨hstored hshape, keys_erase document.shapes id⟩
  | setRecordParent | clearRecordParent | addRecordToGroup | removeRecordFromGroup
  | setRecordBinding | removeRecordBinding =>
    exact ⟨trivial, recordOrder_of_relation id happly kind⟩

theorem orderEdits_fit (hdraft : document.IsDraft)
    (happly : document.applyAll commands = .ok after) (kind : CanvasRecordKind) :
    OrderEdit.FitAll (document.recordOrder kind) (document.orderEdits kind commands) := by
  induction commands generalizing document with
  | nil => trivial
  | cons command rest ih =>
    obtain ⟨draft, hfirst, hrest⟩ := applyAll_cons_ok_iff.mp happly
    obtain ⟨hfits, hdraftOrder⟩ := apply_recordOrder hdraft.wellKeyed hfirst kind
    have hnext := ih (apply_isDraft hdraft hfirst) hrest
    rw [hdraftOrder, effect_of_apply hfirst] at hnext
    exact ⟨hfits, hnext⟩

/-- Inserting edges puts them at the end in their order. -/
theorem recordOrder_insertEdges (hkeyed : document.WellKeyed) (edges : List CanvasEdge)
    (happly : document.applyAll (edges.map .insertEdge) = .ok after) (kind : CanvasRecordKind) :
    after.recordOrder kind =
      document.recordOrder kind ++ if kind = .edge then edges.map (·.id) else [] := by
  induction edges generalizing document with
  | nil =>
    cases happly
    simp
  | cons edge rest ih =>
    obtain ⟨draft, hfirst, hrest⟩ := applyAll_cons_ok_iff.mp happly
    obtain ⟨_, hdraft⟩ := apply_recordOrder hkeyed hfirst kind
    rw [ih (apply_wellKeyed hkeyed hfirst) hrest, hdraft]
    cases kind with
    | node => rfl
    | edge => exact append_assoc _ _ _
    | shape => rfl

end Apply

section TakenBack

variable {document after follower restored : CanvasDocument} {command : DocumentCommand}
  {segment : List DocumentCommand}

/-- The edges of a draft are at none of the nodes it does not store. -/
theorem incidentEdges_of_absent (hdraft : document.IsDraft) {id : NodeId}
    (habsent : document.nodes.get id = none) (hkeyed : follower.WellKeyed)
    (hedges : ∀ edge, follower.edges.get edge = document.edges.get edge) :
    follower.incidentEdges id = [] := by
  rw [eq_nil_iff_forall_not_mem]
  intro edge hmem
  obtain ⟨hstored, hat⟩ := (mem_incidentEdges_iff hkeyed).mp hmem
  rw [hedges] at hstored
  obtain ⟨_, ⟨source, hsource, _⟩, target, htarget, _⟩ :=
    (validateEdge_ok_iff document edge).mp (hdraft.records.edges _ edge hstored)
  rw [Bool.or_eq_true, beq_iff_eq, beq_iff_eq] at hat
  rcases hat with hat | hat
  · rw [hat, habsent] at hsource
    cases hsource
  · rw [hat, habsent] at htarget
    cases htarget

theorem set_not_record (relation : CanvasRecordRelation) :
    ¬ IsRecordCommand (setCommand relation) := by
  cases relation <;> exact id

theorem drop_not_record (key : CanvasRelationKey) : ¬ IsRecordCommand (dropCommand key) := by
  cases key <;> exact id

variable (hdraft : document.IsDraft)

include hdraft

/-- A command on relations is taken back by commands on relations. -/
theorem relation_segment (hrelation : ¬ IsRecordCommand command)
    (happly : document.apply command = .ok after)
    (hinverse : document.inverseFor command = .ok segment) :
    ∀ undo ∈ segment, ¬ IsRecordCommand undo := by
  have hone : ∀ undo, ¬ IsRecordCommand undo → ∀ other ∈ [undo], ¬ IsRecordCommand other :=
    fun undo hundo => forall_mem_singleton.mpr hundo
  cases isInverse_of_inverseFor hdraft happly hinverse with
  | set _ hundo =>
    rcases hundo with ⟨previous, _, _, rfl | ⟨_, rfl⟩⟩ | ⟨_, rfl⟩
    · exact hone _ (set_not_record previous)
    · exact fun _ hmem => absurd hmem not_mem_nil
    · exact hone _ (drop_not_record _)
  | drop _ hundo =>
    rcases hundo with ⟨previous, _, _, rfl⟩ | ⟨_, rfl⟩
    · exact hone _ (set_not_record previous)
    · exact fun _ hmem => absurd hmem not_mem_nil
  | _ => exact absurd trivial hrelation

/-- Replaying the inverse of a command on the draft after it takes back what the
command did to the order of each kind. -/
theorem recordOrder_taken_back (happly : document.apply command = .ok after)
    (hinverse : document.inverseFor command = .ok segment) (hfollows : follower.Follows after)
    (hrestored : follower.applyAll segment = .ok restored) (kind : CanvasRecordKind) :
    restored.recordOrder kind =
      (document.orderEdit kind command).back (follower.recordOrder kind) := by
  have hkeyed : follower.WellKeyed :=
    hfollows.records.wellKeyed (apply_wellKeyed hdraft.wellKeyed happly)
  have hone : ∀ undo, segment = [undo] →
      restored.recordOrder kind =
        (follower.orderEdit kind undo).run (follower.recordOrder kind) := by
    rintro undo rfl
    exact (apply_recordOrder hkeyed (applyAll_singleton_ok_iff.mp hrestored) kind).2
  by_cases hrelation : IsRecordCommand command
  · cases isInverse_of_inverseFor hdraft happly hinverse with
    | insertNode node =>
      rw [hone _ rfl]
      cases kind with
      | node => rfl
      | edge =>
        obtain ⟨habsent, _, rfl⟩ := apply_insertNode_ok_iff.mp happly
        have hnone := incidentEdges_of_absent hdraft habsent hkeyed hfollows.records.edges
        change (follower.recordOrder .edge).filter
          (· ∉ (follower.incidentEdges node.id).map (·.id)) = follower.recordOrder .edge
        rw [hnone]
        exact filter_eq_self.mpr fun _ _ => rfl
      | shape => rfl
    | @removeNode id node hnode =>
      have hid : node.id = id := hdraft.wellKeyed.nodes _ _ hnode
      obtain ⟨middle, hfirst, hrest⟩ := applyAll_cons_ok_iff.mp hrestored
      rw [recordOrder_insertEdges (apply_wellKeyed hkeyed hfirst) _ hrest kind,
        (apply_recordOrder hkeyed hfirst kind).2]
      cases kind with
      | node =>
        rw [← hid]
        exact append_nil _
      | edge => rfl
      | shape => exact append_nil _
    | insertEdge | insertShape =>
      rw [hone _ rfl]
      cases kind <;> rfl
    | updateNode | updateEdge | updateShape => exact hone _ rfl
    | @removeEdge id old hold =>
      have hid : old.id = id := hdraft.wellKeyed.edges _ _ hold
      rw [hone _ rfl, ← hid]
      cases kind <;> rfl
    | @removeShape id old hold =>
      have hid : old.id = id := hdraft.wellKeyed.shapes _ _ hold
      rw [hone _ rfl, ← hid]
      cases kind <;> rfl
    | @set relation => exact absurd hrelation (set_not_record relation)
    | @drop key => exact absurd hrelation (drop_not_record key)
  · rw [recordOrder_of_relations (relation_segment hdraft hrelation happly hinverse) hrestored]
    cases command with
    | setRecordParent | clearRecordParent | addRecordToGroup | removeRecordFromGroup
    | setRecordBinding | removeRecordBinding => rfl
    | _ => exact absurd trivial hrelation

/-- Replaying the inverse of some commands takes back what they did to the order of
each kind. -/
theorem recordOrder_all_taken_back {commands inverse : List DocumentCommand} {last :
    CanvasDocument} (happly : document.applyAll commands = .ok last)
    (hinverse : document.inverseSegments commands = .ok inverse) (hfollows : follower.Follows last)
    (kind : CanvasRecordKind) (hsame : follower.recordOrder kind = last.recordOrder kind)
    (hrestored : follower.applyAll inverse = .ok restored) :
    restored.recordOrder kind =
      backAll (document.recordOrder kind) (document.orderEdits kind commands) := by
  induction commands generalizing document inverse restored with
  | nil =>
    cases happly
    cases hinverse
    cases hrestored
    exact hsame
  | cons command rest ih =>
    obtain ⟨segment, draft, later, hsegment, hfirst, hlater, rfl⟩ :=
      inverseSegments_cons_ok_iff.mp hinverse
    obtain ⟨other, hother, hrest⟩ := applyAll_cons_ok_iff.mp happly
    rw [hfirst, Except.ok.injEq] at hother
    subst hother
    obtain ⟨middle, hmiddle, hsegmentApply⟩ := applyAll_append_ok_iff.mp hrestored
    have hundoes := undoesAll_of_inverseSegments (apply_isDraft hdraft hfirst) hrest hlater hfollows
    obtain ⟨reached, hreached, hmiddleFollows, _⟩ := hundoes.restores
        (hundoes.needed middle hmiddle)
    rw [hmiddle, Except.ok.injEq] at hreached
    subst hreached
    rw [recordOrder_taken_back hdraft hfirst hsegment hmiddleFollows hsegmentApply kind,
      ih (apply_isDraft hdraft hfirst) hrest hlater hmiddle,
      (apply_recordOrder hdraft.wellKeyed hfirst kind).2, effect_of_apply hfirst]
    rfl

end TakenBack

/-- The relation commands that complete an inverse move no record. -/
theorem recordOrder_completeInverse {document current restored final : CanvasDocument}
    {inverse completed : CanvasTransaction}
    (h : completeInverseRelationCommands document current inverse = .ok completed)
    (hrestored : current.applyAll inverse.commands = .ok restored)
    (hfinal : current.applyAll completed.commands = .ok final) (kind : CanvasRecordKind) :
    final.recordOrder kind = restored.recordOrder kind := by
  have hrelation : ∀ change, ¬ IsRecordCommand (relationChangeToCommand change) := by
    intro change
    cases change with
    | upsert relation => exact set_not_record relation
    | delete relation => cases relation <;> exact id
  have hcommands : ∃ changes : List CanvasRelationChange,
      completed.commands = inverse.commands ++ changes.map relationChangeToCommand := by
    rw [completeInverseRelationCommands, bind_eq_ok] at h
    obtain ⟨_, _, h⟩ := h
    rw [check_bind_eq_ok] at h
    obtain ⟨_, h⟩ := h
    dsimp only at h
    split at h
    · rw [pure_eq_ok] at h
      exact ⟨[], by rw [h, map_nil, append_nil]⟩
    · rw [bind_eq_ok] at h
      obtain ⟨_, _, h⟩ := h
      rw [check_bind_eq_ok, pure_eq_ok] at h
      exact ⟨_, by rw [← h.2]⟩
  obtain ⟨changes, hcommands⟩ := hcommands
  rw [hcommands] at hfinal
  obtain ⟨middle, hmiddle, hchanges⟩ := applyAll_append_ok_iff.mp hfinal
  rw [hrestored, Except.ok.injEq] at hmiddle
  subst hmiddle
  refine recordOrder_of_relations (fun command hmem => ?_) hchanges kind
  obtain ⟨change, _, rfl⟩ := mem_map.mp hmem
  exact hrelation change

end CanvasDocument

open CanvasDocument

namespace CanvasMutationJournal

/-- Undoing a commit brings back every record, but not its place: of each kind, the
records that the transaction never removed keep their order and are followed by those
it removed, the last removed first, where the edges that a node took along stay
together.  So the order is the one before exactly when these were the last records. -/
theorem commit_undo_restacks {document after : CanvasDocument} {transaction : CanvasTransaction}
    {kindRegistry : CanvasKindRegistry} {committed : CanvasCommittedMutation}
    (hvalid : document.Valid)
    (h : commitWithKindRegistry document transaction kindRegistry = (.ok committed, after)) :
    ∃ undone restored, commit after committed.inverse = (.ok undone, restored) ∧
      restored.SameContents document ∧ ∀ kind : CanvasRecordKind,
        restored.recordOrder kind = restack (document.recordOrder kind)
          (takes (document.orderEdits kind committed.transaction.commands)) ∧
        (restored.recordOrder kind = document.recordOrder kind ↔
          comeBack (document.recordOrder kind)
            (takes (document.orderEdits kind committed.transaction.commands)) <:+
              document.recordOrder kind) := by
  obtain ⟨undone, restored, hundo, hcontents⟩ := commit_inverse hvalid h
  refine ⟨undone, restored, hundo, hcontents, fun kind => ?_⟩
  rw [commitWithKindRegistry_ok_iff] at h
  obtain ⟨normalized, inverse, draft, _, hinverse, happly, hdocument, _, _, htransaction,
    hcomplete, _⟩ := prepare_ok_steps h
  rw [commit, commitWithKindRegistry_ok_iff] at hundo
  obtain ⟨replayed, _, final, hreplayed, _, hfinal, hrestored, _⟩ := prepare_ok_steps hundo
  dsimp only at hdocument htransaction hcomplete hfinal hrestored
  rw [openRegistry_normalizeTransaction, Except.ok.injEq] at hreplayed
  subst hreplayed
  have hfollows := follows_prune draft (applyAll_isDraft hvalid.isDraft happly).keyed
  have hafter : after.recordOrder kind = draft.recordOrder kind := by
    rw [hdocument]
    cases kind <;> rfl
  rw [← hdocument] at hfollows
  have hreplay := hcomplete
  rw [completeInverseRelationCommands, bind_eq_ok] at hreplay
  obtain ⟨reached, hreached, _⟩ := hreplay
  have horder : restored.recordOrder kind = restack (document.recordOrder kind)
      (takes (document.orderEdits kind committed.transaction.commands)) := by
    have hpruned : restored.recordOrder kind = final.recordOrder kind := by
      rw [hrestored]
      cases kind <;> rfl
    rw [hpruned, recordOrder_completeInverse hcomplete hreached hfinal kind,
      recordOrder_all_taken_back hvalid.isDraft happly hinverse hfollows kind hafter hreached,
      htransaction]
    exact backAll_eq_restack _ (orderEdits_fit hvalid.isDraft happly kind)
  refine ⟨horder, ?_⟩
  rw [horder]
  exact restack_eq_self_iff (document.recordOrder_nodup kind) _

end CanvasMutationJournal

namespace UndoWitness

open CanvasMutationJournal

/-- The removed card comes back behind the note, and the other frame where it was. -/
theorem commit_undo_restacks_removal : ∃ committed after undone restored,
    commit framed removal = (.ok committed, after) ∧
      commit after committed.inverse = (.ok undone, restored) ∧
      restored.recordOrder .node = ["note", "card"] ∧
      restored.recordOrder .shape = framed.recordOrder .shape := by
  have hsome : (commit framed removal).1.toOption.isSome = true := by decide
  obtain ⟨committed, hcommit⟩ := commit_of_isSome hsome
  have htransaction : committed.transaction = removal := by
    have hprepared := commitWithKindRegistry_ok_iff.mp hcommit
    obtain ⟨normalized, _, _, hnormalized, _, _, _, _, _, hcommitted, _⟩ :=
      prepare_ok_steps hprepared
    rw [openRegistry_normalizeTransaction, Except.ok.injEq] at hnormalized
    exact hcommitted.trans hnormalized.symm
  obtain ⟨undone, restored, hundo, _, horder⟩ := commit_undo_restacks framed_valid hcommit
  rw [htransaction] at horder
  have hnodes : restack (framed.recordOrder .node)
      (takes (framed.orderEdits .node removal.commands)) = ["note", "card"] := by
    decide
  have hshapes : comeBack (framed.recordOrder .shape) (takes (framed.orderEdits .shape
      removal.commands)) <:+ framed.recordOrder .shape := by
    decide
  exact ⟨committed, _, undone, restored, hcommit, hundo, (horder .node).1.trans hnodes,
    (horder .shape).2.mpr hshapes⟩

theorem commit_undo_not_in_place : ¬ ∀ (document after restored : CanvasDocument)
    (transaction : CanvasTransaction) (committed undone : CanvasCommittedMutation),
      document.Valid → commit document transaction = (.ok committed, after) →
        commit after committed.inverse = (.ok undone, restored) →
          restored.nodes.keys = document.nodes.keys ∧ restored.edges.keys = document.edges.keys ∧
            restored.shapes.keys = document.shapes.keys := by
  intro h
  have hsome : (commit framed removal).1.toOption.isSome = true := by decide
  obtain ⟨committed, hcommit⟩ := commit_of_isSome hsome
  obtain ⟨undone, restored, hundo, _⟩ := commit_inverse framed_valid hcommit
  have hresult : ((commit framed removal).1.toOption.map fun committed =>
      (commit (commit framed removal).2 committed.inverse).2.nodes.keys) =
        some ["note", "card"] := by
    decide
  rw [hcommit] at hresult
  simp only [Except.toOption, Option.map_some, Option.some.injEq] at hresult
  rw [hundo] at hresult
  have hkept := (h framed _ restored removal committed undone framed_valid hcommit hundo).1
  rw [hresult] at hkept
  exact absurd hkept (by decide)

end UndoWitness

end OpenGpui.Canvas
