/-
Building a document and committing transactions to it.  A transaction is applied to
a draft, the draft is pruned and checked, and an inverse is prepared; a transaction
that fails leaves the document as it was.
-/
import OpenGpui.Canvas.Commands
import OpenGpui.Library.Machine

namespace OpenGpui.Canvas

inductive CanvasRecord where
  | node (node : CanvasNode)
  | edge (edge : CanvasEdge)
  | shape (shape : CanvasShape)
deriving BEq

inductive CanvasRecordChange where
  | upsert (record : CanvasRecord)
  | delete (id : CanvasRecordId)
deriving BEq

inductive CanvasRelationChange where
  | upsert (relation : CanvasRecordRelation)
  | delete (relation : CanvasRecordRelation)
deriving DecidableEq

structure CanvasCommittedMutation where
  transaction : CanvasTransaction
  inverse : CanvasTransaction
  diff : CanvasDocumentDiff
  recordChanges : List CanvasRecordChange
  relationChanges : List CanvasRelationChange
deriving BEq

structure CanvasPreparedMutation where
  document : CanvasDocument
  committed : CanvasCommittedMutation
deriving BEq

def recordFromDocument (document : CanvasDocument) : CanvasRecordId → Option CanvasRecord
  | .node id => (document.nodes.get id).map .node
  | .edge id => (document.edges.get id).map .edge
  | .shape id => (document.shapes.get id).map .shape

def recordChangesFromDiff (document : CanvasDocument) (diff : CanvasDocumentDiff) :
    List CanvasRecordChange :=
  (diff.inserted.filterMap (recordFromDocument document)).map .upsert ++
    (diff.updated.filterMap (recordFromDocument document)).map .upsert ++
    diff.removed.map .delete

def relationChangesFromDiff (document previous : CanvasDocument) : List CanvasRelationChange :=
  let current := document.relations
  let previous := previous.relations
  let goneParents := previous.parents.filter fun relation =>
    current.parentOf relation.child != some relation.parent
  let newParents := current.parents.filter fun relation =>
    previous.parentOf relation.child != some relation.parent
  let goneGroups := previous.groups.filter fun relation =>
    !current.containsRelation (.group relation)
  let newGroups := current.groups.filter fun relation =>
    !previous.containsRelation (.group relation)
  let goneBindings := previous.bindings.filter fun relation =>
    current.binding relation.id != some relation
  let newBindings := current.bindings.filter fun relation =>
    previous.binding relation.id != some relation
  goneParents.map (.delete <| .parent ·) ++ newParents.map (.upsert <| .parent ·) ++
    goneGroups.map (.delete <| .group ·) ++ newGroups.map (.upsert <| .group ·) ++
    goneBindings.map (.delete <| .binding ·) ++ newBindings.map (.upsert <| .binding ·)

def relationChangeToCommand : CanvasRelationChange → DocumentCommand
  | .upsert (.parent relation) => .setRecordParent relation.child relation.parent
  | .delete (.parent relation) => .clearRecordParent relation.child
  | .upsert (.group relation) => .addRecordToGroup relation.group relation.member
  | .delete (.group relation) => .removeRecordFromGroup relation.group relation.member
  | .upsert (.binding relation) => .setRecordBinding relation
  | .delete (.binding relation) => .removeRecordBinding relation.id

/-- Replays the inverse and appends the relation commands it still lacks, which
are replayed too. -/
def completeInverseRelationCommands (previous current : CanvasDocument)
    (inverse : CanvasTransaction) : Except DocumentError CanvasTransaction := do
  let restored := (← current.applyAll inverse.commands).pruneMissingRelations
  restored.validateRelations
  let commands := (relationChangesFromDiff previous restored).map relationChangeToCommand
  if commands.isEmpty then return inverse
  let restored := (← restored.applyAll commands).pruneMissingRelations
  restored.validateRelations
  return { inverse with commands := inverse.commands ++ commands }

/-- The error of a schema as a document error. -/
def liftSchema {α : Type} (result : Except CanvasSchemaError α) : Except DocumentError α :=
  result.mapError .schema

namespace CanvasMutationJournal

variable (document : CanvasDocument) (transaction : CanvasTransaction)

def prepareWithKindRegistry
    (kindRegistry : CanvasKindRegistry) : Except DocumentError CanvasPreparedMutation := do
  let transaction ← liftSchema (kindRegistry.normalizeTransaction transaction)
  let inverse ← document.invertTransaction transaction
  let draft := (← document.applyAll transaction.commands).pruneMissingRelations
  draft.validateRelations
  liftSchema (kindRegistry.validateDocument draft)
  let inverse ← completeInverseRelationCommands document draft inverse
  let diff := draft.diffAgainst document
  return {
    document := draft
    committed := {
      transaction, inverse, diff
      recordChanges := recordChangesFromDiff draft diff
      relationChanges := relationChangesFromDiff draft document } }

/-- The result of a commit with the document after it, which a failed commit leaves
as it was. -/
def commitWithKindRegistry (kindRegistry : CanvasKindRegistry) :
    Except DocumentError CanvasCommittedMutation × CanvasDocument :=
  match prepareWithKindRegistry document transaction kindRegistry with
  | .error error => (.error error, document)
  | .ok prepared => (.ok prepared.committed, prepared.document)

def commit : Except DocumentError CanvasCommittedMutation × CanvasDocument :=
  commitWithKindRegistry document transaction .openRegistry

end CanvasMutationJournal

structure CanvasDocumentBuilder where
  document : CanvasDocument
deriving BEq

/-- A call on a builder before it builds. -/
inductive BuilderCall where
  | withFormatVersion (formatVersion : UInt32)
  | withMetadata (metadata : CanvasValue)
  | withRelations (relations : CanvasRecordRelations)
  | addNode (node : CanvasNode)
  | addEdge (edge : CanvasEdge)
  | addShape (shape : CanvasShape)

namespace CanvasDocumentBuilder

def new : CanvasDocumentBuilder := ⟨.default⟩

variable (builder : CanvasDocumentBuilder)

def withFormatVersion (formatVersion : UInt32) : CanvasDocumentBuilder :=
  ⟨{ builder.document with formatVersion }⟩

def withMetadata (metadata : CanvasValue) : CanvasDocumentBuilder :=
  ⟨{ builder.document with metadata }⟩

def withRelations (relations : CanvasRecordRelations) : CanvasDocumentBuilder :=
  ⟨{ builder.document with relations }⟩

def addNode (node : CanvasNode) : Except DocumentError CanvasDocumentBuilder :=
  mk <$> builder.document.insertNodeRule node

def addEdge (edge : CanvasEdge) : Except DocumentError CanvasDocumentBuilder :=
  mk <$> builder.document.insertEdgeRule edge

def addShape (shape : CanvasShape) : Except DocumentError CanvasDocumentBuilder :=
  mk <$> builder.document.insertShapeRule shape

def build : Except DocumentError CanvasDocument := do
  let document := builder.document.pruneMissingRelations
  document.validateRelations
  return document

def buildWithKindRegistry (kindRegistry : CanvasKindRegistry) :
    Except DocumentError CanvasDocument := do
  let document := builder.document.pruneMissingRelations
  document.validateRelations
  liftSchema (kindRegistry.validateDocument document)
  return document

/-- One call; an addition that fails leaves the builder as it was. -/
def call : BuilderCall → CanvasDocumentBuilder
  | .withFormatVersion formatVersion => builder.withFormatVersion formatVersion
  | .withMetadata metadata => builder.withMetadata metadata
  | .withRelations relations => builder.withRelations relations
  | .addNode node => (builder.addNode node).toOption.getD builder
  | .addEdge edge => (builder.addEdge edge).toOption.getD builder
  | .addShape shape => (builder.addShape shape).toOption.getD builder

variable (calls : List BuilderCall)

/-- A builder after some calls. -/
def afterCalls : CanvasDocumentBuilder := calls.foldl call new

/-- What some calls on a new builder build, without or with a kind registry. -/
def Builds (document : CanvasDocument) : Prop :=
  (afterCalls calls).build = .ok document ∨
    ∃ kindRegistry, (afterCalls calls).buildWithKindRegistry kindRegistry = .ok document

end CanvasDocumentBuilder

/-- A transaction handed in with the registry of the session that commits it. -/
structure CommitRequest where
  kindRegistry : CanvasKindRegistry
  transaction : CanvasTransaction

/-- A document edited by committing transactions, of which some fail. -/
def documentSession :
    Machine CanvasDocument CommitRequest (Except DocumentError CanvasCommittedMutation) where
  step document request :=
    some (CanvasMutationJournal.commitWithKindRegistry document request.transaction
      request.kindRegistry)

end OpenGpui.Canvas
