/-
Referential integrity over whole sessions: what the builder returns passes the
integrity check, and every committed transaction leads to a document that does.
-/
import OpenGpui.Canvas.Integrity
import OpenGpui.Canvas.Mutation

namespace OpenGpui.Canvas

open Checked CanvasDocumentBuilder CanvasMutationJournal IndexMap Option

namespace CanvasDocument

/-- What a document that passes the integrity check promises its readers. -/
structure ReferentialIntegrity (document : CanvasDocument) : Prop where
  handles : ∀ id node, document.nodes.get id = some node → (node.handles.map (·.id)).Nodup
  sources : ∀ id edge, document.edges.get id = some edge → document.EndpointFits edge.source .target
  targets : ∀ id edge, document.edges.get id = some edge → document.EndpointFits edge.target .source
  relations : document.RelationsWellFormed

variable {document : CanvasDocument}

theorem referentialIntegrity_of_validateIntegrity
    (h : document.validateIntegrity = .ok ()) : document.ReferentialIntegrity := by
  obtain ⟨hrecords, hrelations⟩ := (validateIntegrity_ok_iff document).mp h
  refine ⟨?_, ?_, ?_, hrelations⟩
  · intro id node hget
    exact (validateNode_ok_iff node).mp (hrecords.nodes id node hget)
  · intro id edge hget
    exact ((validateEdge_ok_iff document edge).mp (hrecords.edges id edge hget)).2.1
  · intro id edge hget
    exact ((validateEdge_ok_iff document edge).mp (hrecords.edges id edge hget)).2.2

variable {after : CanvasDocument} {edge : CanvasEdge}

/-- Only the nodes at its two ends decide whether an edge is accepted. -/
theorem validateEdge_congr (before : CanvasDocument)
    (hsource : after.nodes.get edge.source.nodeId = before.nodes.get edge.source.nodeId)
    (htarget : after.nodes.get edge.target.nodeId = before.nodes.get edge.target.nodeId) :
    after.validateEdge edge = before.validateEdge edge := by
  simp only [validateEdge, validateSourceEndpoint, validateTargetEndpoint, validateEndpointRole,
    endpointParts, hsource, htarget]

/-- The nodes at the ends of an accepted edge are stored. -/
theorem validateEdge_stored (h : document.validateEdge edge = .ok ()) :
    (∃ node, document.nodes.get edge.source.nodeId = some node) ∧
      ∃ node, document.nodes.get edge.target.nodeId = some node := by
  obtain ⟨_, ⟨source, hsource, _⟩, target, htarget, _⟩ := (validateEdge_ok_iff document edge).mp h
  exact ⟨⟨source, hsource⟩, target, htarget⟩

/-- Relations and metadata play no part in the records' own checks. -/
theorem RecordsValid.congr {before : CanvasDocument} (hvalid : before.RecordsValid)
    (hnodes : after.nodes = before.nodes) (hedges : after.edges = before.edges) :
    after.RecordsValid := by
  refine ⟨?_, ?_⟩
  · intro id node hget
    exact hvalid.nodes id node (hnodes ▸ hget)
  · intro id edge hget
    rw [validateEdge_congr before (by rw [hnodes]) (by rw [hnodes])]
    exact hvalid.edges id edge (hedges ▸ hget)

variable {node : CanvasNode}

theorem apply_insertNode_ok_iff : document.apply (.insertNode node) = .ok after ↔
      document.nodes.get node.id = none ∧ validateNode node = .ok () ∧
        after = { document with nodes := document.nodes.insert node.id node } := by
  rw [apply, insertNodeRule, guard_eq_ok, check_bind_eq_ok, pure_eq_ok, Bool.not_eq_true,
    containsKey_eq_false_iff, eq_comm (b := after)]

theorem apply_updateNode_ok_iff : document.apply (.updateNode node) = .ok after ↔
      (∃ old, document.nodes.get node.id = some old) ∧ validateNode node = .ok () ∧
        after.validateIntegrity = .ok () ∧
        after = { document with nodes := document.nodes.insert node.id node } := by
  rw [apply, updateNodeRule, guard_eq_ok, check_bind_eq_ok, check_bind_eq_ok, pure_eq_ok,
    Bool.not_eq_true', Bool.not_eq_false, containsKey_iff]
  constructor
  · rintro ⟨hstored, hnode, hintegrity, rfl⟩
    exact ⟨hstored, hnode, hintegrity, rfl⟩
  · rintro ⟨hstored, hnode, hintegrity, rfl⟩
    exact ⟨hstored, hnode, hintegrity, rfl⟩

/-- The document without a node and the edges at it. -/
def withoutNode (document : CanvasDocument) (id : NodeId) : CanvasDocument :=
  { document with
    nodes := document.nodes.erase id
    edges := document.edges.retain fun _ edge =>
      edge.source.nodeId != id && edge.target.nodeId != id }

theorem apply_removeNode_ok_iff {id : NodeId} : document.apply (.removeNode id) = .ok after ↔
      (∃ node, document.nodes.get id = some node) ∧ after = document.withoutNode id := by
  rw [apply, removeNodeRule, shiftRemove]
  cases document.nodes.get id with
  | none => simp
  | some node => simp [eq_comm (b := after), withoutNode]

theorem apply_insertEdge_ok_iff {edge : CanvasEdge} :
    document.apply (.insertEdge edge) = .ok after ↔
      document.edges.get edge.id = none ∧ document.validateEdge edge = .ok () ∧
        after = { document with edges := document.edges.insert edge.id edge } := by
  rw [apply, insertEdgeRule, guard_eq_ok, check_bind_eq_ok, pure_eq_ok, Bool.not_eq_true,
    containsKey_eq_false_iff, eq_comm (b := after)]

theorem apply_updateEdge_ok_iff {edge : CanvasEdge} :
    document.apply (.updateEdge edge) = .ok after ↔
      (∃ old, document.edges.get edge.id = some old) ∧ document.validateEdge edge = .ok () ∧
        after = { document with edges := document.edges.insert edge.id edge } := by
  rw [apply, updateEdgeRule, guard_eq_ok, check_bind_eq_ok, pure_eq_ok, Bool.not_eq_true',
    Bool.not_eq_false, containsKey_iff, eq_comm (b := after)]

theorem apply_removeEdge_ok_iff {id : EdgeId} :
    document.apply (.removeEdge id) = .ok after ↔ (∃ edge, document.edges.get id = some edge) ∧
        after = { document with edges := document.edges.erase id } := by
  rw [apply, removeEdgeRule, shiftRemove]
  cases document.edges.get id with
  | none => simp
  | some edge => simp [eq_comm (b := after)]

variable {shape : CanvasShape}

theorem apply_insertShape_ok_iff :
    document.apply (.insertShape shape) = .ok after ↔ document.shapes.get shape.id = none ∧
        after = { document with shapes := document.shapes.insert shape.id shape } := by
  rw [apply, insertShapeRule, guard_eq_ok, Except.ok.injEq, Bool.not_eq_true,
    containsKey_eq_false_iff, eq_comm (b := after)]

theorem apply_updateShape_ok_iff : document.apply (.updateShape shape) = .ok after ↔
      (∃ old, document.shapes.get shape.id = some old) ∧
        after = { document with shapes := document.shapes.insert shape.id shape } := by
  rw [apply, updateShapeRule, guard_eq_ok, Except.ok.injEq, Bool.not_eq_true', Bool.not_eq_false,
    containsKey_iff, eq_comm (b := after)]

theorem apply_removeShape_ok_iff {id : ShapeId} :
    document.apply (.removeShape id) = .ok after ↔ (∃ shape, document.shapes.get id = some shape) ∧
        after = { document with shapes := document.shapes.erase id } := by
  rw [apply, removeShapeRule, shiftRemove]
  cases document.shapes.get id with
  | none => simp
  | some shape => simp [eq_comm (b := after)]

variable (hvalid : document.RecordsValid)

include hvalid

/-- A new node leaves the nodes at the ends of the edges as they were. -/
theorem RecordsValid.insert_node (hnode : validateNode node = .ok ())
    (habsent : document.nodes.get node.id = none) :
    RecordsValid { document with nodes := document.nodes.insert node.id node } := by
  have hframe : ∀ id stored, document.nodes.get id = some stored →
      (document.nodes.insert node.id node).get id = document.nodes.get id := by
    intro id stored hget
    rw [get_insert, if_neg]
    rintro rfl
    rw [habsent] at hget
    cases hget
  refine ⟨?_, ?_⟩
  · intro id stored hget
    rw [get_insert] at hget
    by_cases heq : node.id = id
    · rw [if_pos heq] at hget
      cases hget
      exact hnode
    · rw [if_neg heq] at hget
      exact hvalid.nodes id stored hget
  · intro id edge hget
    have hedge := hvalid.edges id edge hget
    obtain ⟨⟨source, hsource⟩, target, htarget⟩ := validateEdge_stored hedge
    rw [validateEdge_congr document (hframe _ source hsource) (hframe _ target htarget)]
    exact hedge

/-- An edge is kept only when neither end is the removed node. -/
theorem RecordsValid.withoutNode (id : NodeId) : (document.withoutNode id).RecordsValid := by
  have hframe : ∀ other, other ≠ id →
      (document.nodes.erase id).get other = document.nodes.get other := by
    intro other hne
    ext stored
    simp [get_erase_eq_some_iff, hne]
  refine ⟨?_, ?_⟩
  · intro other stored hget
    exact hvalid.nodes other stored (get_erase_eq_some_iff.mp hget).1
  · intro other edge hget
    obtain ⟨hstored, hkeep⟩ := get_retain_eq_some_iff.mp hget
    simp only [Bool.and_eq_true, bne_iff_ne, ne_eq] at hkeep
    rw [validateEdge_congr document (hframe _ hkeep.1) (hframe _ hkeep.2)]
    exact hvalid.edges other edge hstored

/-- An edge that passes its check may be stored under any id. -/
theorem RecordsValid.insert_edge (hedge : document.validateEdge edge = .ok ()) :
    RecordsValid { document with edges := document.edges.insert edge.id edge } := by
  refine ⟨hvalid.nodes, ?_⟩
  intro id stored hget
  rw [get_insert] at hget
  by_cases heq : edge.id = id
  · rw [if_pos heq] at hget
    cases hget
    exact hedge
  · rw [if_neg heq] at hget
    exact hvalid.edges id stored hget

/-- Commands on relations leave the records alone. -/
theorem relationRule_recordsValid
    {first second : CanvasRecordId} {error : DocumentError} {relations : CanvasRecordRelations}
    (h : (if first = second then .error error
      else do
        document.validateRecordId first
        document.validateRecordId second
        return { document with relations }) = .ok after) : after.RecordsValid := by
  rw [guard_eq_ok, check_bind_eq_ok, check_bind_eq_ok, pure_eq_ok] at h
  obtain ⟨_, _, _, rfl⟩ := h
  exact hvalid.congr rfl rfl

/-- Every command keeps the stored nodes and edges valid. -/
theorem apply_recordsValid {command : DocumentCommand} (h : document.apply command = .ok after) :
    after.RecordsValid := by
  cases command with
  | insertNode node =>
    obtain ⟨habsent, hnode, rfl⟩ := apply_insertNode_ok_iff.mp h
    exact hvalid.insert_node hnode habsent
  | updateNode node =>
    obtain ⟨_, _, hintegrity, _⟩ := apply_updateNode_ok_iff.mp h
    exact ((validateIntegrity_ok_iff _).mp hintegrity).1
  | removeNode id =>
    obtain ⟨_, rfl⟩ := apply_removeNode_ok_iff.mp h
    exact hvalid.withoutNode id
  | insertEdge edge =>
    obtain ⟨_, hedge, rfl⟩ := apply_insertEdge_ok_iff.mp h
    exact hvalid.insert_edge hedge
  | updateEdge edge =>
    obtain ⟨_, hedge, rfl⟩ := apply_updateEdge_ok_iff.mp h
    exact hvalid.insert_edge hedge
  | removeEdge id =>
    obtain ⟨_, rfl⟩ := apply_removeEdge_ok_iff.mp h
    refine ⟨hvalid.nodes, ?_⟩
    intro other stored hget
    exact hvalid.edges other stored (get_erase_eq_some_iff.mp hget).1
  | insertShape shape =>
    obtain ⟨_, rfl⟩ := apply_insertShape_ok_iff.mp h
    exact hvalid.congr rfl rfl
  | updateShape shape =>
    obtain ⟨_, rfl⟩ := apply_updateShape_ok_iff.mp h
    exact hvalid.congr rfl rfl
  | removeShape id =>
    obtain ⟨_, rfl⟩ := apply_removeShape_ok_iff.mp h
    exact hvalid.congr rfl rfl
  | setRecordParent child parent | addRecordToGroup group member =>
    exact relationRule_recordsValid hvalid h
  | setRecordBinding binding => exact relationRule_recordsValid hvalid h
  | clearRecordParent child | removeRecordFromGroup group member | removeRecordBinding id =>
    cases h
    exact hvalid.congr rfl rfl

theorem applyAll_recordsValid {commands : List DocumentCommand}
    (h : document.applyAll commands = .ok after) : after.RecordsValid :=
  foldlM_invariant (fun _ _ _ hstep hbefore => apply_recordsValid hbefore hstep) h hvalid

theorem pruneMissingRelations_recordsValid : document.pruneMissingRelations.RecordsValid :=
  hvalid.congr rfl rfl

end CanvasDocument

open CanvasDocument

namespace CanvasMutationJournal

section Prepare

variable {document : CanvasDocument} {transaction : CanvasTransaction}
  {kindRegistry : CanvasKindRegistry} {prepared : CanvasPreparedMutation}

/-- What a prepared mutation consists of. -/
theorem prepare_ok_steps
    (h : prepareWithKindRegistry document transaction kindRegistry = .ok prepared) :
    ∃ normalized inverse draft, kindRegistry.normalizeTransaction transaction = .ok normalized ∧
      document.inverseSegments normalized.commands = .ok inverse ∧
      document.applyAll normalized.commands = .ok draft ∧
      prepared.document = draft.pruneMissingRelations ∧
      prepared.document.validateRelations = .ok () ∧
      kindRegistry.validateDocument prepared.document = .ok () ∧
      prepared.committed.transaction = normalized ∧
      completeInverseRelationCommands document prepared.document ⟨inverse, .empty⟩ =
        .ok prepared.committed.inverse ∧
      prepared.committed.diff = prepared.document.diffAgainst document := by
  have hlift : ∀ {α : Type} {result : Except CanvasSchemaError α} {value : α},
      liftSchema result = .ok value → result = .ok value := by
    intro α result value hresult
    cases result with
    | error error => simp [liftSchema, Except.mapError] at hresult
    | ok other => simpa [liftSchema, Except.mapError] using hresult
  rw [prepareWithKindRegistry, bind_eq_ok] at h
  obtain ⟨normalized, hnormalized, h⟩ := h
  rw [bind_eq_ok] at h
  obtain ⟨inverse, hinverse, h⟩ := h
  rw [invertTransaction, bind_eq_ok] at hinverse
  obtain ⟨commands, hcommands, hinverse⟩ := hinverse
  rw [bind_eq_ok] at h
  obtain ⟨draft, hdraft, h⟩ := h
  rw [check_bind_eq_ok, check_bind_eq_ok] at h
  obtain ⟨hrelations, hschema, h⟩ := h
  rw [bind_eq_ok] at h
  obtain ⟨completed, hcompleted, h⟩ := h
  rw [pure_eq_ok] at h hinverse
  subst h
  subst hinverse
  exact ⟨normalized, commands, draft, hlift hnormalized, hcommands, hdraft, rfl, hrelations,
    hlift hschema, rfl, hcompleted, rfl⟩

/-- The result of a transaction passes the integrity check when its document does. -/
theorem prepare_validateIntegrity (hvalid : document.validateIntegrity = .ok ())
    (h : prepareWithKindRegistry document transaction kindRegistry = .ok prepared) :
    prepared.document.validateIntegrity = .ok () := by
  obtain ⟨_, _, draft, _, _, happly, hdocument, hrelations, _⟩ := prepare_ok_steps h
  rw [validateIntegrity_ok_iff, ← validateRelations_ok_iff]
  refine ⟨?_, hrelations⟩
  rw [hdocument]
  exact pruneMissingRelations_recordsValid
    (applyAll_recordsValid ((validateIntegrity_ok_iff document).mp hvalid).1 happly)

end Prepare

/-- Committing is preparing and storing. -/
theorem commitWithKindRegistry_ok_iff {document after : CanvasDocument}
    {transaction : CanvasTransaction} {kindRegistry : CanvasKindRegistry}
    {committed : CanvasCommittedMutation} :
    commitWithKindRegistry document transaction kindRegistry = (.ok committed, after) ↔
      prepareWithKindRegistry document transaction kindRegistry = .ok ⟨after, committed⟩ := by
  rw [commitWithKindRegistry]
  cases hprepare : prepareWithKindRegistry document transaction kindRegistry with
  | error error => simp
  | ok prepared =>
    obtain ⟨result, mutation⟩ := prepared
    simp [and_comm]

/-- A failed commit leaves the document as it was. -/
theorem commit_error {document after : CanvasDocument} {transaction : CanvasTransaction}
    {kindRegistry : CanvasKindRegistry} {error : DocumentError}
    (h : commitWithKindRegistry document transaction kindRegistry = (.error error, after)) :
    after = document := by
  rw [commitWithKindRegistry] at h
  cases hprepare : prepareWithKindRegistry document transaction kindRegistry with
  | error other =>
    rw [hprepare] at h
    exact (congrArg Prod.snd h).symm
  | ok prepared =>
    rw [hprepare] at h
    exact absurd (congrArg Prod.fst h) (by simp)

end CanvasMutationJournal

namespace CanvasDocumentBuilder

/-- A call applies a command on records, or leaves the records alone. -/
theorem call_cases (builder : CanvasDocumentBuilder) (call : BuilderCall) :
    (∃ command, builder.document.apply command = .ok (builder.call call).document) ∨
      ((builder.call call).document.nodes = builder.document.nodes ∧
        (builder.call call).document.edges = builder.document.edges ∧
        (builder.call call).document.shapes = builder.document.shapes) := by
  cases call with
  | withFormatVersion formatVersion | withMetadata metadata | withRelations relations =>
    exact .inr ⟨rfl, rfl, rfl⟩
  | addNode node =>
    rw [call, addNode]
    cases hrule : builder.document.insertNodeRule node with
    | error error => exact .inr ⟨rfl, rfl, rfl⟩
    | ok document => exact .inl ⟨.insertNode node, hrule⟩
  | addEdge edge =>
    rw [call, addEdge]
    cases hrule : builder.document.insertEdgeRule edge with
    | error error => exact .inr ⟨rfl, rfl, rfl⟩
    | ok document => exact .inl ⟨.insertEdge edge, hrule⟩
  | addShape shape =>
    rw [call, addShape]
    cases hrule : builder.document.insertShapeRule shape with
    | error error => exact .inr ⟨rfl, rfl, rfl⟩
    | ok document => exact .inl ⟨.insertShape shape, hrule⟩

theorem call_recordsValid {builder : CanvasDocumentBuilder} (call : BuilderCall)
    (hvalid : builder.document.RecordsValid) : (builder.call call).document.RecordsValid := by
  rcases builder.call_cases call with ⟨command, happly⟩ | ⟨hnodes, hedges, _⟩
  · exact apply_recordsValid hvalid happly
  · exact hvalid.congr hnodes hedges

theorem afterCalls_recordsValid (calls : List BuilderCall) :
    (afterCalls calls).document.RecordsValid := by
  have hnew : new.document.RecordsValid :=
    ⟨fun _ _ hget => (nomatch hget), fun _ _ hget => (nomatch hget)⟩
  rw [afterCalls]
  generalize new = builder at hnew
  induction calls generalizing builder with
  | nil => exact hnew
  | cons call rest ih => exact ih _ (call_recordsValid call hnew)

/-- A document the builder returns passes the integrity check. -/
theorem builds_validateIntegrity {calls : List BuilderCall} {document : CanvasDocument}
    (h : Builds calls document) : document.validateIntegrity = .ok () := by
  rw [validateIntegrity_ok_iff, ← validateRelations_ok_iff]
  rcases h with hbuild | ⟨kindRegistry, hbuild⟩
  · rw [build, check_bind_eq_ok, pure_eq_ok] at hbuild
    obtain ⟨hrelations, rfl⟩ := hbuild
    exact ⟨pruneMissingRelations_recordsValid (afterCalls_recordsValid calls), hrelations⟩
  · rw [buildWithKindRegistry, check_bind_eq_ok, check_bind_eq_ok, pure_eq_ok] at hbuild
    obtain ⟨hrelations, _, rfl⟩ := hbuild
    exact ⟨pruneMissingRelations_recordsValid (afterCalls_recordsValid calls), hrelations⟩

end CanvasDocumentBuilder

/-- A commit, whether it succeeds or fails, keeps the integrity of the document. -/
theorem commit_validateIntegrity {document after : CanvasDocument} {request : CommitRequest}
    {result : Except DocumentError CanvasCommittedMutation}
    (hvalid : document.validateIntegrity = .ok ())
    (hstep : documentSession.step document request = some (result, after)) :
    after.validateIntegrity = .ok () := by
  rw [documentSession, some.injEq] at hstep
  cases result with
  | error error =>
    rw [commit_error hstep]
    exact hvalid
  | ok committed =>
    rw [commitWithKindRegistry_ok_iff] at hstep
    exact prepare_validateIntegrity hvalid hstep

/-- Starting from a built document, every document a session reaches passes the
integrity check and has the properties the check stands for. -/
theorem documents_keep_integrity {calls : List BuilderCall} {document last : CanvasDocument}
    {requests : List CommitRequest} (hbuild : CanvasDocumentBuilder.Builds calls document)
    (hrun : documentSession.run document requests = some last) :
    last.validateIntegrity = .ok () ∧ last.ReferentialIntegrity := by
  have hlast : last.validateIntegrity = .ok () :=
    Machine.invariant_of_run (fun _ _ _ _ hvalid hstep => commit_validateIntegrity hvalid hstep)
      (builds_validateIntegrity hbuild) hrun
  exact ⟨hlast, referentialIntegrity_of_validateIntegrity hlast⟩

namespace SessionWitness

def origin : Point := ⟨.finite 0, .finite 0⟩

def extent : Size := ⟨.finite 10, .finite 10⟩

def outlet : CanvasHandle := { CanvasHandle.new "out" origin with role := .source }

def calls : List BuilderCall :=
  [.addNode { CanvasNode.new "a" origin extent with handles := [outlet] },
    .addNode (CanvasNode.new "b" origin extent),
    .addEdge (CanvasEdge.new "a-b" ⟨"a", some "out"⟩ ⟨"b", none⟩),
    .addShape (CanvasShape.new "frame" ⟨origin, extent⟩),
    .withRelations ⟨[⟨.edge "a-b", .shape "frame"⟩], [⟨.node "a", .node "gone"⟩], []⟩]

/-- Closing a cycle through a parent and a group fails; removing a node takes its
edge and that edge's parent along. -/
def requests : List CommitRequest :=
  [⟨.openRegistry, .new [.addRecordToGroup (.edge "a-b") (.node "b"),
      .setRecordParent (.shape "frame") (.node "b")]⟩,
    ⟨.openRegistry, .single (.removeNode "a")⟩]

def outcome : Option CanvasDocument :=
  (afterCalls calls).build.toOption.bind fun document =>
    documentSession.run document requests

example : outcome.map (fun document => (document.nodes.keys, document.edges.keys,
    document.relations)) = some (["b"], [], .default) := by decide

theorem documents_keep_integrity_requests : ∃ document last,
    CanvasDocumentBuilder.Builds calls document ∧
      documentSession.run document requests = some last ∧
      last.validateIntegrity = .ok () ∧ last.ReferentialIntegrity := by
  have hsome : outcome.isSome = true := by decide
  obtain ⟨last, hlast⟩ := Option.isSome_iff_exists.mp hsome
  obtain ⟨document, hdocument, hrun⟩ := Option.bind_eq_some_iff.mp hlast
  have hbuild : (afterCalls calls).build = .ok document := by
    cases hresult : (afterCalls calls).build with
    | error error => simp [hresult, Except.toOption] at hdocument
    | ok built =>
      rw [hresult] at hdocument
      rw [Option.some.inj hdocument]
  exact ⟨document, last, Or.inl hbuild, hrun, documents_keep_integrity (Or.inl hbuild) hrun⟩

end SessionWitness

end OpenGpui.Canvas
