/-
What each document command does when it applies: what it needs of the document and
the document it leads to.  The drafts of a transaction stay well keyed, their nodes
and edges stay valid, and their relations keep distinct keys and join two records.
-/
import OpenGpui.Canvas.Contents

namespace OpenGpui.Canvas

open Checked CanvasRecordRelations IndexMap Option

/-- The command that puts a relation under its key. -/
def setCommand (relation : CanvasRecordRelation) : DocumentCommand :=
  relationChangeToCommand (.upsert relation)

/-- The command that drops the relation of a key. -/
def dropCommand : CanvasRelationKey → DocumentCommand
  | .parent child => .clearRecordParent child
  | .group group member => .removeRecordFromGroup group member
  | .binding id => .removeRecordBinding id

namespace CanvasDocument

section RelationCommands

variable {document after : CanvasDocument} {relation : CanvasRecordRelation}

theorem apply_set_ok_iff : document.apply (setCommand relation) = .ok after ↔
      relation.ends.1 ≠ relation.ends.2 ∧ document.StoresEnds relation ∧
        after = { document with relations := document.relations.upsert relation } := by
  have hrule : ∀ (first second : CanvasRecordId) (error : DocumentError) (relations :
      CanvasRecordRelations), (if first = second then .error error
        else do
          document.validateRecordId first
          document.validateRecordId second
          return { document with relations }) = Except.ok after ↔
      first ≠ second ∧ (document.containsRecord first = true ∧
        document.containsRecord second = true) ∧ after = { document with relations } := by
    intro first second error relations
    rw [guard_eq_ok, check_bind_eq_ok, check_bind_eq_ok, pure_eq_ok, validateRecordId_ok_iff,
      validateRecordId_ok_iff, and_assoc, eq_comm (b := after)]
  cases relation with
  | parent relation | group relation | binding relation => exact hrule _ _ _ _

theorem apply_drop (document : CanvasDocument) (key : CanvasRelationKey) :
    document.apply (dropCommand key) =
      .ok { document with relations := document.relations.drop key } := by
  cases key <;> rfl

theorem relations_only (relations : CanvasRecordRelations) :
    SameRecords { document with relations } document :=
  ⟨rfl, rfl, fun _ => rfl, fun _ => rfl, fun _ => rfl⟩

end RelationCommands

variable {document after : CanvasDocument} {command : DocumentCommand}

/-- The document a command leads to when it applies. -/
def effect (document : CanvasDocument) : DocumentCommand → CanvasDocument
  | .insertNode node | .updateNode node =>
    { document with nodes := document.nodes.insert node.id node }
  | .removeNode id => document.withoutNode id
  | .insertEdge edge | .updateEdge edge =>
    { document with edges := document.edges.insert edge.id edge }
  | .removeEdge id => { document with edges := document.edges.erase id }
  | .insertShape shape | .updateShape shape =>
    { document with shapes := document.shapes.insert shape.id shape }
  | .removeShape id => { document with shapes := document.shapes.erase id }
  | .setRecordParent child parent =>
    { document with relations := document.relations.setParent child parent }
  | .clearRecordParent child =>
    { document with relations := document.relations.clearParent child }
  | .addRecordToGroup group member =>
    { document with relations := document.relations.addToGroup group member }
  | .removeRecordFromGroup group member =>
    { document with relations := document.relations.removeFromGroup group member }
  | .setRecordBinding binding =>
    { document with relations := document.relations.setBinding binding }
  | .removeRecordBinding id =>
    { document with relations := document.relations.removeBinding id }

theorem effect_of_apply (h : document.apply command = .ok after) :
    after = document.effect command := by
  have hset : ∀ relation, document.apply (setCommand relation) = .ok after →
      after = { document with relations := document.relations.upsert relation } :=
    fun relation hset => (apply_set_ok_iff.mp hset).2.2
  have hdrop : ∀ key, document.apply (dropCommand key) = .ok after →
      after = { document with relations := document.relations.drop key } := by
    intro key hdrop
    rw [apply_drop, Except.ok.injEq] at hdrop
    exact hdrop.symm
  cases command with
  | insertNode node => exact (apply_insertNode_ok_iff.mp h).2.2
  | updateNode node => exact (apply_updateNode_ok_iff.mp h).2.2.2
  | removeNode id => exact (apply_removeNode_ok_iff.mp h).2
  | insertEdge edge => exact (apply_insertEdge_ok_iff.mp h).2.2
  | updateEdge edge => exact (apply_updateEdge_ok_iff.mp h).2.2
  | removeEdge id => exact (apply_removeEdge_ok_iff.mp h).2
  | insertShape shape => exact (apply_insertShape_ok_iff.mp h).2
  | updateShape shape => exact (apply_updateShape_ok_iff.mp h).2
  | removeShape id => exact (apply_removeShape_ok_iff.mp h).2
  | setRecordParent child parent => exact hset (.parent ⟨child, parent⟩) h
  | addRecordToGroup group member => exact hset (.group ⟨group, member⟩) h
  | setRecordBinding binding => exact hset (.binding binding) h
  | clearRecordParent child => exact hdrop (.parent child) h
  | removeRecordFromGroup group member => exact hdrop (.group group member) h
  | removeRecordBinding id => exact hdrop (.binding id) h

theorem applyAll_cons_ok_iff {rest : List DocumentCommand} :
    document.applyAll (command :: rest) = .ok after ↔
      ∃ draft, document.apply command = .ok draft ∧ draft.applyAll rest = .ok after := by
  rw [applyAll, List.foldlM_cons, bind_eq_ok]
  rfl

theorem applyAll_singleton_ok_iff :
    document.applyAll [command] = .ok after ↔ document.apply command = .ok after := by
  rw [applyAll_cons_ok_iff]
  constructor
  · rintro ⟨draft, happly, hrest⟩
    cases hrest
    exact happly
  · intro happly
    exact ⟨after, happly, rfl⟩

theorem applyAll_append_ok_iff {first second : List DocumentCommand} :
    document.applyAll (first ++ second) = .ok after ↔
      ∃ draft, document.applyAll first = .ok draft ∧ draft.applyAll second = .ok after := by
  rw [applyAll, List.foldlM_append, bind_eq_ok]
  rfl

/-- What every draft of a transaction on a valid document has. -/
structure IsDraft (document : CanvasDocument) : Prop where
  wellKeyed : document.WellKeyed
  records : document.RecordsValid
  keyed : document.relations.Keyed
  joined : Joined document.relations

section

variable (hvalid : document.Valid)

include hvalid

theorem Valid.recordsValid : document.RecordsValid :=
  ((validateIntegrity_ok_iff document).mp hvalid.integrity).1

theorem Valid.wellFormed : document.RelationsWellFormed :=
  ((validateIntegrity_ok_iff document).mp hvalid.integrity).2

theorem Valid.isDraft : document.IsDraft := by
  obtain ⟨hunique, hjoined, _⟩ := (relationsWellFormed_iff document).mp hvalid.wellFormed
  exact ⟨hvalid.wellKeyed, hvalid.recordsValid, hunique, hjoined⟩

end

theorem WellKeyed.congr (hkeyed : document.WellKeyed)
    (hnodes : after.nodes = document.nodes) (hedges : after.edges = document.edges)
    (hshapes : after.shapes = document.shapes) : after.WellKeyed :=
  ⟨hnodes ▸ hkeyed.nodes, hedges ▸ hkeyed.edges, hshapes ▸ hkeyed.shapes⟩

/-- Every command stores records under their own ids. -/
theorem apply_wellKeyed
    (hkeyed : document.WellKeyed) (h : document.apply command = .ok after) : after.WellKeyed := by
  rw [effect_of_apply h]
  cases command with
  | insertNode node | updateNode node =>
    exact ⟨hkeyed.nodes.insert node, hkeyed.edges, hkeyed.shapes⟩
  | removeNode id => exact ⟨hkeyed.nodes.retain _, hkeyed.edges.retain _, hkeyed.shapes⟩
  | insertEdge edge | updateEdge edge =>
    exact ⟨hkeyed.nodes, hkeyed.edges.insert edge, hkeyed.shapes⟩
  | removeEdge id => exact ⟨hkeyed.nodes, hkeyed.edges.retain _, hkeyed.shapes⟩
  | insertShape shape | updateShape shape =>
    exact ⟨hkeyed.nodes, hkeyed.edges, hkeyed.shapes.insert shape⟩
  | removeShape id => exact ⟨hkeyed.nodes, hkeyed.edges, hkeyed.shapes.retain _⟩
  | _ => exact hkeyed.congr rfl rfl rfl

/-- Commands on records leave the relations alone, until a transaction ends. -/
theorem apply_relations (h : document.apply command = .ok after) :
    after.relations = document.relations ∨ (∃ relation, relation.ends.1 ≠ relation.ends.2 ∧
        after.relations = document.relations.upsert relation) ∨
      ∃ key, after.relations = document.relations.drop key := by
  have hset : ∀ relation, document.apply (setCommand relation) = .ok after →
      relation.ends.1 ≠ relation.ends.2 ∧ after.relations = document.relations.upsert relation := by
    intro relation hset
    obtain ⟨hends, _, rfl⟩ := apply_set_ok_iff.mp hset
    exact ⟨hends, rfl⟩
  have hrelations := congrArg CanvasDocument.relations (effect_of_apply h)
  cases command with
  | setRecordParent child parent => exact .inr (.inl ⟨_, hset (.parent ⟨child, parent⟩) h⟩)
  | addRecordToGroup group member => exact .inr (.inl ⟨_, hset (.group ⟨group, member⟩) h⟩)
  | setRecordBinding binding => exact .inr (.inl ⟨_, hset (.binding binding) h⟩)
  | clearRecordParent child => exact .inr (.inr ⟨.parent child, hrelations⟩)
  | removeRecordFromGroup group member => exact .inr (.inr ⟨.group group member, hrelations⟩)
  | removeRecordBinding id => exact .inr (.inr ⟨.binding id, hrelations⟩)
  | _ => exact .inl hrelations

variable {relations : CanvasRecordRelations}

theorem Joined.upsert (hkeyed : relations.Keyed)
    (hjoined : Joined relations) {relation : CanvasRecordRelation}
    (hends : relation.ends.1 ≠ relation.ends.2) : Joined (relations.upsert relation) := by
  intro other hholds
  rcases (holds_upsert_iff hkeyed _ _).mp hholds with rfl | ⟨hold, _⟩
  · exact hends
  · exact hjoined other hold

theorem Joined.drop (hkeyed : relations.Keyed)
    (hjoined : Joined relations) (key : CanvasRelationKey) : Joined (relations.drop key) :=
  fun other hholds =>
    hjoined other ((holds_drop_iff hkeyed _ _).mp hholds).1

theorem apply_isDraft
    (hdraft : document.IsDraft) (h : document.apply command = .ok after) : after.IsDraft := by
  refine ⟨apply_wellKeyed hdraft.wellKeyed h, apply_recordsValid hdraft.records h, ?_, ?_⟩
  · rcases apply_relations h with heq | ⟨relation, _, heq⟩ | ⟨key, heq⟩
    · exact heq ▸ hdraft.keyed
    · exact heq ▸ hdraft.keyed.upsert relation
    · exact heq ▸ hdraft.keyed.drop key
  · rcases apply_relations h with heq | ⟨relation, hends, heq⟩ | ⟨key, heq⟩
    · exact heq ▸ hdraft.joined
    · exact heq ▸ hdraft.joined.upsert hdraft.keyed hends
    · exact heq ▸ hdraft.joined.drop hdraft.keyed key

theorem applyAll_isDraft {commands : List DocumentCommand}
    (hdraft : document.IsDraft) (h : document.applyAll commands = .ok after) : after.IsDraft :=
  foldlM_invariant (fun _ _ _ hstep hbefore => apply_isDraft hbefore hstep) h hdraft

end CanvasDocument

open CanvasDocument

namespace CanvasDocumentBuilder

theorem call_wellKeyed {builder : CanvasDocumentBuilder} (call : BuilderCall)
    (hkeyed : builder.document.WellKeyed) : (builder.call call).document.WellKeyed := by
  rcases builder.call_cases call with ⟨command, happly⟩ | ⟨hnodes, hedges, hshapes⟩
  · exact apply_wellKeyed hkeyed happly
  · exact hkeyed.congr hnodes hedges hshapes

theorem afterCalls_wellKeyed (calls : List BuilderCall) :
    (afterCalls calls).document.WellKeyed := by
  have hnew : new.document.WellKeyed :=
    ⟨fun _ _ hget => (nomatch hget), fun _ _ hget => (nomatch hget), fun _ _ hget => (nomatch hget)⟩
  rw [afterCalls]
  generalize new = builder at hnew
  induction calls generalizing builder with
  | nil => exact hnew
  | cons call rest ih => exact ih _ (call_wellKeyed call hnew)

/-- Every document the builder returns is valid. -/
theorem builds_valid {calls : List BuilderCall} {document : CanvasDocument}
    (h : Builds calls document) : document.Valid := by
  refine ⟨?_, builds_validateIntegrity h⟩
  rcases h with hbuild | ⟨kindRegistry, hbuild⟩
  · rw [build, check_bind_eq_ok, pure_eq_ok] at hbuild
    exact hbuild.2 ▸ (afterCalls_wellKeyed calls).congr rfl rfl rfl
  · rw [buildWithKindRegistry, check_bind_eq_ok, check_bind_eq_ok, pure_eq_ok] at hbuild
    exact hbuild.2.2 ▸ (afterCalls_wellKeyed calls).congr rfl rfl rfl

end CanvasDocumentBuilder

namespace CanvasMutationJournal

/-- The result of a transaction on a valid document is valid. -/
theorem prepare_valid {document : CanvasDocument} {transaction : CanvasTransaction}
    {kindRegistry : CanvasKindRegistry} {prepared : CanvasPreparedMutation}
    (hvalid : document.Valid)
    (h : prepareWithKindRegistry document transaction kindRegistry = .ok prepared) :
    prepared.document.Valid := by
  obtain ⟨_, _, draft, _, _, happly, hdocument, _⟩ := prepare_ok_steps h
  refine ⟨?_, prepare_validateIntegrity hvalid.integrity h⟩
  rw [hdocument]
  exact (applyAll_isDraft hvalid.isDraft happly).wellKeyed.congr rfl rfl rfl

end CanvasMutationJournal

end OpenGpui.Canvas
