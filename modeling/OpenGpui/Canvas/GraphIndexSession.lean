/-
A document session that keeps a graph index.  An index that tracks its document
answers every query like one rebuilt from the document, and it goes on tracking as
long as no commit changes the order of the edges at a node without changing what
the edges join.
-/
import OpenGpui.Canvas.GraphIndexTracks

namespace OpenGpui.Canvas

open CanvasIndexedGraph IndexMap

namespace CanvasGraphIndex

/-- Two indexes of a document that no query can tell apart. -/
structure AnswersLike (index other : CanvasGraphIndex) (document : CanvasDocument) : Prop where
  edgeIds : ∀ node direction,
    index.edgeIdsForNode node direction = other.edgeIdsForNode node direction
  edgeIdsBetween : ∀ source target,
    index.edgeIdsBetween source target = other.edgeIdsBetween source target
  hasEdgeBetween : ∀ source target,
    index.hasEdgeBetween source target = other.hasEdgeBetween source target
  neighborNodeIds : ∀ node direction,
    index.neighborNodeIds node direction = other.neighborNodeIds node direction
  incidentEdgeCount : ∀ node, index.incidentEdgeCount node = other.incidentEdgeCount node
  edgeCount : index.edgeCount = other.edgeCount
  isEmpty : index.isEmpty = other.isEmpty
  containsEdge : ∀ id, index.containsEdge id = other.containsEdge id
  edgeEndpoints : ∀ id, index.edgeEndpoints.get id = other.edgeEndpoints.get id
  edges : ∀ node direction, edgesForNode ⟨document, index⟩ node direction =
    edgesForNode ⟨document, other⟩ node direction
  edgesBetween : ∀ source target, edgesBetween ⟨document, index⟩ source target =
    edgesBetween ⟨document, other⟩ source target
  neighbors : ∀ node direction,
    CanvasIndexedGraph.neighborNodeIds ⟨document, index⟩ node direction =
      CanvasIndexedGraph.neighborNodeIds ⟨document, other⟩ node direction

/-- The ends of the edges and the lists at the nodes decide every answer. -/
theorem Tracks.answersLike {index other : CanvasGraphIndex} {document : CanvasDocument}
    (hindex : index.Tracks document) (hother : other.Tracks document) :
    index.AnswersLike other document := by
  have hids : ∀ node direction,
      index.edgeIdsForNode node direction = other.edgeIdsForNode node direction :=
    fun node direction => (hindex.ids node direction).trans (hother.ids node direction).symm
  have hends : ∀ id, index.edgeEndpoints.get id = other.edgeEndpoints.get id :=
    fun id => (hindex.endpoints id).trans (hother.endpoints id).symm
  have hbetween : ∀ source target,
      index.edgeIdsBetween source target = other.edgeIdsBetween source target := by
    intro source target
    have houtgoing : index.outgoingEdgeIds source = other.outgoingEdgeIds source :=
      hids source .outgoing
    rw [edgeIdsBetween, edgeIdsBetween, houtgoing]
    simp only [hends]
  have hneighbors : ∀ node direction,
      index.neighborNodeIds node direction = other.neighborNodeIds node direction := by
    intro node direction
    rw [neighborNodeIds, neighborNodeIds, hids]
    simp only [hends]
  have hcount : index.edgeCount = other.edgeCount := len_eq_of_get hends
  refine ⟨hids, hbetween, ?_, hneighbors, ?_, hcount, ?_, ?_, hends, ?_, ?_, ?_⟩
  · intro source target
    rw [hasEdgeBetween, hasEdgeBetween, hbetween]
  · intro node
    exact congrArg List.length (hids node .any)
  · exact congrArg (· == 0) hcount
  · intro id
    rw [containsEdge, containsEdge, containsKey, containsKey, hends]
  · intro node direction
    rw [edgesForNode, edgesForNode, hids]
  · intro source target
    rw [edgesBetween, edgesBetween, hbetween]
  · intro node direction
    rw [CanvasIndexedGraph.neighborNodeIds, CanvasIndexedGraph.neighborNodeIds, hneighbors]

end CanvasGraphIndex

open CanvasGraphIndex CanvasMutationJournal

/-- A document with the index that is kept beside it. -/
structure IndexedDocument where
  document : CanvasDocument
  index : CanvasGraphIndex

namespace IndexedDocument

def rebuilt (document : CanvasDocument) : IndexedDocument := ⟨document, .rebuild document⟩

end IndexedDocument

/-- Commits a transaction; the diff of a commit that succeeds goes to the index. -/
def indexSession :
    Machine IndexedDocument CommitRequest (Except DocumentError CanvasCommittedMutation) where
  step state request :=
    match commitWithKindRegistry state.document request.transaction request.kindRegistry with
    | (.error error, document) => some (.error error, ⟨document, state.index⟩)
    | (.ok committed, document) =>
      some (.ok committed, ⟨document, state.index.applyDiff document committed.diff⟩)

/-- The request fails, or what it commits changes the topology or keeps the order of
the edges at each node. -/
def KeepsEdgeOrder (state : IndexedDocument) (request : CommitRequest) : Prop :=
  ∀ committed document,
    commitWithKindRegistry state.document request.transaction request.kindRegistry =
      (.ok committed, document) →
    TopologyChanged document state.document ∨ SameEdgeOrder document state.document

theorem indexSession_step {state next : IndexedDocument} {request : CommitRequest}
    {result : Except DocumentError CanvasCommittedMutation}
    (hstate : state.document.Valid ∧ state.index.Tracks state.document)
    (horder : KeepsEdgeOrder state request)
    (hstep : indexSession.step state request = some (result, next)) :
    next.document.Valid ∧ next.index.Tracks next.document := by
  obtain ⟨hvalid, htracks⟩ := hstate
  rw [indexSession] at hstep
  cases hcommit : commitWithKindRegistry state.document request.transaction
      request.kindRegistry with
  | mk outcome document =>
    simp only [hcommit] at hstep
    cases outcome with
    | error error =>
      cases hstep
      rw [commit_error hcommit]
      exact ⟨hvalid, htracks⟩
    | ok committed =>
      cases hstep
      have hprepared := commitWithKindRegistry_ok_iff.mp hcommit
      obtain ⟨_, _, _, _, _, _, _, _, _, _, _, hdiff⟩ := prepare_ok_steps hprepared
      have hnext := prepare_valid hvalid hprepared
      refine ⟨hnext, ?_⟩
      rw [hdiff]
      exact (applyDiff_tracks_iff hnext htracks).mpr (horder committed document hcommit)

/-- Along commits that keep the order of edges or change the topology, the index that
is kept answers like one rebuilt from the document. -/
theorem index_answers_like_rebuilt {document : CanvasDocument} {last : IndexedDocument}
    {requests : List CommitRequest} (hvalid : document.Valid)
    (halong : indexSession.Along KeepsEdgeOrder (.rebuilt document) requests)
    (hrun : indexSession.run (.rebuilt document) requests = some last) :
    last.index.AnswersLike (.rebuild last.document) last.document := by
  have hstart : (IndexedDocument.rebuilt document).document.Valid ∧
      (IndexedDocument.rebuilt document).index.Tracks document :=
    ⟨hvalid, rebuild_tracks hvalid.wellKeyed⟩
  obtain ⟨hlast, htracks⟩ := Machine.run_induction
    (fun _ _ _ _ hstate horder hstep => indexSession_step hstate horder hstep) hstart halong hrun
  exact htracks.answersLike (rebuild_tracks hlast.wellKeyed)

namespace GraphIndexWitness

def origin : Point := ⟨.finite 0, .finite 0⟩

def extent : Size := ⟨.finite 10, .finite 10⟩

def first : CanvasEdge := CanvasEdge.new "first" ⟨"a", none⟩ ⟨"b", none⟩

def second : CanvasEdge := CanvasEdge.new "second" ⟨"b", none⟩ ⟨"a", none⟩

/-- Two nodes joined by two edges. -/
def calls : List BuilderCall :=
  [.addNode (CanvasNode.new "a" origin extent), .addNode (CanvasNode.new "b" origin extent),
    .addEdge first, .addEdge second]

def joined : CanvasDocument := (CanvasDocumentBuilder.afterCalls calls).document

theorem joined_valid : joined.Valid := by
  have hbuild : (CanvasDocumentBuilder.afterCalls calls).build = .ok joined := rfl
  exact CanvasDocumentBuilder.builds_valid (Or.inl hbuild)

/-- Turns the first edge around. -/
def reconnect : CommitRequest :=
  ⟨.openRegistry, .single (.updateEdge { first with source := ⟨"b", none⟩, target := ⟨"a", none⟩ })⟩

/-- Takes the first edge out and puts it back. -/
def reinsert : CommitRequest := ⟨.openRegistry, .new [.removeEdge "first", .insertEdge first]⟩

theorem reconnect_keepsEdgeOrder : KeepsEdgeOrder (.rebuilt joined) reconnect := by
  intro committed document hcommit
  have hdocument : document = (commitWithKindRegistry joined reconnect.transaction
      reconnect.kindRegistry).2 := (congrArg Prod.snd hcommit).symm
  left
  refine ⟨"first", ?_⟩
  rw [hdocument]
  decide

theorem index_answers_like_rebuilt_reconnect : ∃ last,
    indexSession.run (.rebuilt joined) [reconnect] = some last ∧
      last.document.endpointsOf "first" = some ⟨"b", "a"⟩ ∧
      last.index.AnswersLike (.rebuild last.document) last.document := by
  have hends : (indexSession.run (.rebuilt joined) [reconnect]).map
      (fun last => last.document.endpointsOf "first") = some (some ⟨"b", "a"⟩) := by decide
  obtain ⟨last, hrun, hlast⟩ := Option.map_eq_some_iff.mp hends
  have halong : indexSession.Along KeepsEdgeOrder (.rebuilt joined) [reconnect] :=
    ⟨reconnect_keepsEdgeOrder, fun _ _ _ => trivial⟩
  exact ⟨last, hrun, hlast, index_answers_like_rebuilt joined_valid halong hrun⟩

/-- An edge that is put back goes to the end of the document, but not of the index. -/
theorem index_not_like_rebuilt_reinsert : ¬ ∀ (document : CanvasDocument)
    (requests : List CommitRequest) (last : IndexedDocument), document.Valid →
      indexSession.run (.rebuilt document) requests = some last →
        last.index.AnswersLike (.rebuild last.document) last.document := by
  intro h
  have hlists : (indexSession.run (.rebuilt joined) [reinsert]).map (fun last =>
      (last.index.edgeIdsForNode "a" .any, (rebuild last.document).edgeIdsForNode "a" .any)) =
      some (["first", "second"], ["second", "first"]) := by decide
  obtain ⟨last, hrun, hlast⟩ := Option.map_eq_some_iff.mp hlists
  have hlike := h joined [reinsert] last joined_valid hrun
  rw [hlike.edgeIds "a" .any] at hlast
  obtain ⟨hfirst, hsecond⟩ := Prod.mk.inj hlast
  rw [hsecond] at hfirst
  exact absurd hfirst (by decide)

end GraphIndexWitness

end OpenGpui.Canvas
