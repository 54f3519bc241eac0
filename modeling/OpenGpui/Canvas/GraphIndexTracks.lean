/-
The graph index follows the document.  Whatever a commit does, the index holds the
right edges at the right nodes; it also has them in the order of the document when
the commit changed which edges there are or what they join, since then everything is
sorted again.
-/
import OpenGpui.Canvas.GraphIndex
import OpenGpui.Canvas.Diff
import OpenGpui.Canvas.CommandSpecs

namespace OpenGpui.Canvas

open List CanvasDocument CanvasGraphEndpointIds IndexMap Nat

namespace CanvasDocument

variable (document : CanvasDocument)

/-- The ends of each edge of a document. -/
def endpointsOf (id : EdgeId) : Option CanvasGraphEndpointIds :=
  (document.edges.get id).map .fromEdge

variable (node : NodeId)

/-- The edges at a node in the order of the document. -/
def edgesAt (direction : CanvasEdgeDirection) : List EdgeId :=
  document.edges.keys.filter fun id =>
    (document.endpointsOf id).any fun endpoints => endpoints.matchesNode node direction

theorem mem_edgesAt_iff (direction : CanvasEdgeDirection) (id : EdgeId) :
    id ∈ document.edgesAt node direction ↔ ∃ endpoints, document.endpointsOf id = some endpoints ∧
        endpoints.matchesNode node direction := by
  rw [edgesAt, mem_filter, Option.any_eq_true, mem_keys_iff, containsKey_iff]
  constructor
  · rintro ⟨_, endpoints, hget, hmatches⟩
    exact ⟨endpoints, hget, of_decide_eq_true hmatches⟩
  · rintro ⟨endpoints, hget, hmatches⟩
    obtain ⟨edge, hedge, _⟩ := Option.map_eq_some_iff.mp hget
    exact ⟨⟨edge, hedge⟩, endpoints, hget, decide_eq_true hmatches⟩

end CanvasDocument

namespace CanvasGraphIndex

/-- The index has the ends of every edge and lists the edges at each node in the
order of the document. -/
structure Tracks (index : CanvasGraphIndex) (document : CanvasDocument) : Prop where
  endpoints : ∀ id, index.edgeEndpoints.get id = document.endpointsOf id
  ids : ∀ node direction, index.edgeIdsForNode node direction = document.edgesAt node direction

variable {index : CanvasGraphIndex}

theorem Tracks.consistent {document : CanvasDocument}
    (htracks : index.Tracks document) : index.Consistent := by
  refine ⟨?_, ?_⟩
  · intro node direction
    rw [htracks.ids]
    exact document.edges.nodup.filter _
  · intro node direction id
    rw [htracks.ids, mem_edgesAt_iff, htracks.endpoints]

section Passes

variable {document : CanvasDocument}

/-- A record that is removed takes an edge with these ends out of the index. -/
def TakesOut (record : CanvasRecordId) (id : EdgeId) (endpoints : CanvasGraphEndpointIds) : Prop :=
  record = .edge id ∨ ∃ node, record = .node node ∧ endpoints.matchesNode node .any

/-- A node at the end of a stored edge is stored. -/
theorem node_stored_of_matches {document : CanvasDocument} (hvalid : document.Valid) {id : EdgeId}
    {edge : CanvasEdge} (hget : document.edges.get id = some edge) {node : NodeId}
    (hmatches : (CanvasGraphEndpointIds.fromEdge edge).matchesNode node .any) :
    document.nodes.get node ≠ none := by
  obtain ⟨⟨source, hsource⟩, target, htarget⟩ :=
    validateEdge_stored (hvalid.recordsValid.edges id edge hget)
  rw [Option.ne_none_iff_exists']
  rcases hmatches with rfl | rfl
  · exact ⟨source, hsource⟩
  · exact ⟨target, htarget⟩

variable (state : Bool × CanvasGraphIndex)

/-- The index stays consistent and loses the edges with the property. -/
def Drops (drops : EdgeId → CanvasGraphEndpointIds → Prop) (next : Bool × CanvasGraphIndex) :
    Prop :=
  next.2.Consistent ∧ ∀ id endpoints, next.2.edgeEndpoints.get id = some endpoints ↔
    state.2.edgeEndpoints.get id = some endpoints ∧ ¬ drops id endpoints

/-- A pass over items loses what it loses for one of them. -/
theorem foldl_drops {α : Type} {step : Bool × CanvasGraphIndex → α → Bool × CanvasGraphIndex}
    {drops : α → EdgeId → CanvasGraphEndpointIds → Prop}
    (hstep : ∀ state, state.2.Consistent → ∀ item, Drops state (drops item) (step state item))
    (items : List α) (state : Bool × CanvasGraphIndex) (hconsistent : state.2.Consistent) :
    Drops state (fun id endpoints => ∃ item ∈ items, drops item id endpoints)
      (items.foldl step state) := by
  induction items generalizing state with
  | nil => exact ⟨hconsistent, by simp⟩
  | cons item rest ih =>
    obtain ⟨hnext, hget⟩ := hstep state hconsistent item
    obtain ⟨hrest, hgetRest⟩ := ih _ hnext
    refine ⟨hrest, fun id endpoints => ?_⟩
    rw [foldl_cons, hgetRest, hget]
    simp only [mem_cons, exists_eq_or_imp, not_or, and_assoc]

theorem removeTracked_drops (hconsistent : state.2.Consistent) (edgeId : EdgeId) :
    Drops state (fun id _ => id = edgeId) (removeTracked state edgeId) := by
  refine ⟨hconsistent.removeEdgeId edgeId, fun id endpoints => ?_⟩
  rw [removeTracked, removeEdgeId_endpoints]
  by_cases heq : edgeId = id
  · simp [heq]
  · simp [heq, Ne.symm heq]

theorem removeTracked_of_false {state : Bool × CanvasGraphIndex} {edgeId : EdgeId}
    (h : (removeTracked state edgeId).1 = false) : removeTracked state edgeId = state := by
  obtain ⟨hstate, hremoved⟩ := Bool.or_eq_false_iff.mp h
  exact Prod.ext (by rw [h, hstate]) (removeEdgeId_of_false hremoved)

theorem applyRemoved_drops (hconsistent : state.2.Consistent) (record : CanvasRecordId) :
    Drops state (TakesOut record) (applyRemoved state record) := by
  cases record with
  | edge edgeId =>
    obtain ⟨hresult, hget⟩ := removeTracked_drops state hconsistent edgeId
    refine ⟨hresult, fun id endpoints => ?_⟩
    rw [applyRemoved, hget]
    simp [TakesOut, eq_comm (a := edgeId)]
  | node node =>
    obtain ⟨hresult, hget⟩ :=
      foldl_drops removeTracked_drops (state.2.incidentEdgeIds node) state hconsistent
    refine ⟨hresult, fun id endpoints => ?_⟩
    rw [applyRemoved, hget]
    apply and_congr_right
    intro hstored
    have hmem := hconsistent.mem_iff node .any id
    rw [edgeIdsForNode, hstored] at hmem
    simp only [exists_eq_right', hmem]
    simp [TakesOut]
  | shape shape => exact ⟨hconsistent, by simp [applyRemoved, TakesOut]⟩

/-- An edge that is recorded as updated and joins other nodes now. -/
def Reconnected (document : CanvasDocument) (record : CanvasRecordId) (id : EdgeId)
    (endpoints : CanvasGraphEndpointIds) : Prop :=
  record = .edge id ∧ ∃ other, document.endpointsOf id = some other ∧ other ≠ endpoints

theorem applyUpdated_drops (document : CanvasDocument) (state : Bool × CanvasGraphIndex)
    (hconsistent : state.2.Consistent) (record : CanvasRecordId) :
    Drops state (Reconnected document record) (applyUpdated document state record) := by
  cases record with
  | node node | shape shape => exact ⟨hconsistent, by simp [applyUpdated, Reconnected]⟩
  | edge edgeId =>
    rw [applyUpdated]
    cases hstored : state.2.edgeEndpoints.get edgeId with
    | none =>
      refine ⟨hconsistent, fun id endpoints => (and_iff_left_of_imp ?_).symm⟩
      rintro hget ⟨heq, _⟩
      cases heq
      rw [hstored] at hget
      cases hget
    | some ends =>
      cases hedge : document.edges.get edgeId with
      | none =>
        refine ⟨hconsistent, fun id endpoints => (and_iff_left_of_imp ?_).symm⟩
        rintro hget ⟨heq, other, hother, _⟩
        cases heq
        rw [endpointsOf, hedge] at hother
        cases hother
      | some edge =>
        have hends : document.endpointsOf edgeId = some (.fromEdge edge) := by
          rw [endpointsOf, hedge]
          rfl
        have hdiffers : (edge.source.nodeId ≠ ends.source ∨ edge.target.nodeId ≠ ends.target) ↔
            CanvasGraphEndpointIds.fromEdge edge ≠ ends := by
          obtain ⟨source, target⟩ := ends
          simp only [CanvasGraphEndpointIds.fromEdge, ne_eq, CanvasGraphEndpointIds.mk.injEq,
            not_and_or]
        dsimp only
        by_cases hmoved : edge.source.nodeId ≠ ends.source ∨ edge.target.nodeId ≠ ends.target
        · rw [if_pos hmoved]
          obtain ⟨hresult, hdropped⟩ := removeTracked_drops state hconsistent edgeId
          refine ⟨hresult, fun id endpoints => ?_⟩
          rw [hdropped]
          apply and_congr_right
          intro hget
          rw [not_iff_not]
          constructor
          · rintro rfl
            rw [hstored, Option.some.injEq] at hget
            exact ⟨rfl, _, hends, hget ▸ hdiffers.mp hmoved⟩
          · rintro ⟨heq, _⟩
            cases heq
            rfl
        · rw [if_neg hmoved]
          refine ⟨hconsistent, fun id endpoints => (and_iff_left_of_imp ?_).symm⟩
          rintro hget ⟨heq, other, hother, hne⟩
          cases heq
          rw [hends, Option.some.injEq] at hother
          rw [hstored, Option.some.injEq] at hget
          exact hmoved (hdiffers.mpr (hother ▸ hget ▸ hne))

theorem applyInserted_spec (hkeyed : document.WellKeyed) (state : Bool × CanvasGraphIndex)
    (hconsistent : state.2.Consistent) (record : CanvasRecordId) :
    (applyInserted document state record).2.Consistent ∧ ∀ id,
      (applyInserted document state record).2.edgeEndpoints.get id =
        if record = .edge id ∧ state.2.edgeEndpoints.get id = none then document.endpointsOf id
        else state.2.edgeEndpoints.get id := by
  cases record with
  | node node | shape shape => exact ⟨hconsistent, by simp [applyInserted]⟩
  | edge edgeId =>
    rw [applyInserted]
    cases hedge : document.edges.get edgeId with
    | none =>
      refine ⟨hconsistent, fun id => ?_⟩
      dsimp only
      split
      · next h =>
        cases h.1
        rw [h.2, endpointsOf, hedge]
        rfl
      · rfl
    | some edge =>
      have hid := hkeyed.edges edgeId edge hedge
      dsimp only
      by_cases hstored : state.2.edgeEndpoints.containsKey edgeId = true
      · rw [if_pos hstored]
        refine ⟨hconsistent, fun id => ?_⟩
        rw [if_neg]
        rintro ⟨heq, hnone⟩
        cases heq
        rw [containsKey, hnone] at hstored
        cases hstored
      · have habsent : state.2.edgeEndpoints.get edge.id = none := by
          rw [hid]
          exact containsKey_eq_false_iff.mp (Bool.not_eq_true _ ▸ hstored)
        rw [if_neg hstored]
        refine ⟨hconsistent.insertEdge habsent, fun id => ?_⟩
        rw [insertEdge_endpoints habsent, hid]
        by_cases heq : edgeId = id
        · subst heq
          rw [hid] at habsent
          rw [if_pos rfl, if_pos ⟨rfl, habsent⟩, endpointsOf, hedge]
          rfl
        · rw [if_neg heq, if_neg (fun h => heq (CanvasRecordId.edge.inj h.1))]

theorem foldl_applyInserted (hkeyed : document.WellKeyed) (records : List CanvasRecordId)
    (state : Bool × CanvasGraphIndex) (hconsistent : state.2.Consistent) :
    (records.foldl (applyInserted document) state).2.Consistent ∧ ∀ id,
      (records.foldl (applyInserted document) state).2.edgeEndpoints.get id =
        if .edge id ∈ records ∧ state.2.edgeEndpoints.get id = none then document.endpointsOf id
        else state.2.edgeEndpoints.get id := by
  induction records generalizing state with
  | nil => exact ⟨hconsistent, by simp⟩
  | cons record rest ih =>
    obtain ⟨hnext, hstep⟩ := applyInserted_spec hkeyed state hconsistent record
    obtain ⟨hrest, hget⟩ := ih _ hnext
    refine ⟨hrest, fun id => ?_⟩
    simp only [foldl_cons, hget, hstep, mem_cons]
    by_cases hnone : state.2.edgeEndpoints.get id = none
    · by_cases heq : record = .edge id
      · subst heq
        simp [hnone]
      · have hne : CanvasRecordId.edge id ≠ record := Ne.symm heq
        simp [hnone, heq, hne]
    · simp [hnone]

/-- A fold that reports no change has not changed anything. -/
theorem foldl_of_false {σ α : Type} {step : Bool × σ → α → Bool × σ}
    (hstep : ∀ state item, (step state item).1 = false → step state item = state) :
    ∀ (items : List α) (state : Bool × σ), (items.foldl step state).1 = false →
      items.foldl step state = state
  | [], _, _ => rfl
  | item :: rest, state, h => by
    have hrest : rest.foldl step (step state item) = step state item :=
      foldl_of_false hstep rest _ h
    rw [foldl_cons, hrest] at h ⊢
    exact hstep state item h

theorem applyRemoved_of_false (record : CanvasRecordId)
    (h : (applyRemoved state record).1 = false) : applyRemoved state record = state := by
  cases record with
  | edge id => exact removeTracked_of_false h
  | node id => exact foldl_of_false (fun _ _ => removeTracked_of_false) _ state h
  | shape id => rfl

theorem applyUpdated_of_false (record : CanvasRecordId)
    (h : (applyUpdated document state record).1 = false) :
    applyUpdated document state record = state := by
  cases record with
  | edge id =>
    rw [applyUpdated] at h ⊢
    cases hstored : state.2.edgeEndpoints.get id with
    | none => rfl
    | some endpoints =>
      cases hedge : document.edges.get id with
      | none => rfl
      | some edge =>
        rw [hstored, hedge] at h
        dsimp only at h ⊢
        by_cases hmoved : edge.source.nodeId ≠ endpoints.source ∨
            edge.target.nodeId ≠ endpoints.target
        · rw [if_pos hmoved] at h ⊢
          exact removeTracked_of_false h
        · rw [if_neg hmoved]
  | node id => rfl
  | shape id => rfl

theorem applyInserted_of_false (record : CanvasRecordId)
    (h : (applyInserted document state record).1 = false) :
    applyInserted document state record = state := by
  cases record with
  | edge id =>
    rw [applyInserted] at h ⊢
    cases hedge : document.edges.get id with
    | none => rfl
    | some edge =>
      rw [hedge] at h
      dsimp only at h ⊢
      by_cases hstored : state.2.edgeEndpoints.containsKey id = true
      · rw [if_pos hstored]
      · rw [if_neg hstored] at h
        cases h
  | node id => rfl
  | shape id => rfl

theorem applyRecords_of_false {index : CanvasGraphIndex} {diff : CanvasDocumentDiff}
    (h : (index.applyRecords document diff).1 = false) :
    index.applyRecords document diff = (false, index) := by
  rw [applyRecords] at h ⊢
  have hinserted := foldl_of_false applyInserted_of_false _ _ h
  rw [hinserted] at h ⊢
  have hupdated := foldl_of_false applyUpdated_of_false _ _ h
  rw [hupdated] at h ⊢
  exact foldl_of_false applyRemoved_of_false _ _ h

end Passes

/-- Equal edges join the same nodes. -/
theorem fromEdge_of_beq {edge other : CanvasEdge} (h : (edge == other) = true) :
    CanvasGraphEndpointIds.fromEdge edge = .fromEdge other := by
  have hends : edge.source = other.source ∧ edge.target = other.target := by
    cases edge
    cases other
    simp only [BEq.beq, instBEqCanvasEdge.beq, Bool.and_eq_true, decide_eq_true_eq] at h
    exact ⟨h.2.2.1, h.2.2.2.1⟩
  rw [CanvasGraphEndpointIds.fromEdge, CanvasGraphEndpointIds.fromEdge, hends.1, hends.2]

/-- After the passes the index has the ends of every edge of the later document. -/
theorem applyRecords_spec {document previous : CanvasDocument}
    (hvalid : document.Valid) (htracks : index.Tracks previous) :
    (index.applyRecords document (document.diffAgainst previous)).2.Consistent ∧ ∀ id,
      (index.applyRecords document (document.diffAgainst previous)).2.edgeEndpoints.get id =
        document.endpointsOf id := by
  let diff := document.diffAgainst previous
  obtain ⟨hremoved, hgetRemoved⟩ :=
    foldl_drops applyRemoved_drops diff.removed (false, index) htracks.consistent
  obtain ⟨hupdated, hgetUpdated⟩ :=
    foldl_drops (applyUpdated_drops document) diff.updated _ hremoved
  obtain ⟨hinserted, hgetInserted⟩ :=
    foldl_applyInserted hvalid.wellKeyed (diff.updated ++ diff.inserted) _ hupdated
  refine ⟨hinserted, fun id => (hgetInserted id).trans ?_⟩
  let state := diff.updated.foldl (applyUpdated document) (diff.removed.foldl applyRemoved
    (false, index))
  have hkept : ∀ endpoints, state.2.edgeEndpoints.get id = some endpoints ↔ (previous.endpointsOf id
      = some endpoints ∧ ∀ record ∈ diff.removed, ¬ TakesOut record id endpoints) ∧ ∀ record ∈
      diff.updated, ¬ Reconnected document record id endpoints := by
    intro endpoints
    rw [hgetUpdated, hgetRemoved, htracks.endpoints]
    simp only [not_exists, not_and]
  cases hstate : state.2.edgeEndpoints.get id with
  | some endpoints =>
    -- an edge that was kept has the ends it has now
    obtain ⟨⟨hprevious, hnotRemoved⟩, hnotMoved⟩ := (hkept endpoints).mp hstate
    obtain ⟨old, hold, rfl⟩ := Option.map_eq_some_iff.mp hprevious
    rw [if_neg (fun h => absurd h.2 (by simp))]
    cases hnew : document.edges.get id with
    | none =>
      have hmem := edge_mem_removed_iff.mpr ⟨⟨old, hold⟩, hnew⟩
      exact absurd (.inl rfl) (hnotRemoved _ hmem)
    | some new =>
      have hends : document.endpointsOf id = some (.fromEdge new) := by
        rw [endpointsOf, hnew]
        rfl
      rw [hends, Option.some.injEq]
      cases hsame : old == new with
      | true => exact fromEdge_of_beq hsame
      | false =>
        by_contra hne
        have hmem := edge_mem_updated_iff.mpr ⟨old, new, hold, hnew, hsame⟩
        exact hnotMoved _ hmem ⟨rfl, _, hends, Ne.symm hne⟩
  | none =>
    by_cases hlisted : .edge id ∈ diff.updated ++ diff.inserted
    · rw [if_pos ⟨hlisted, rfl⟩]
    · rw [if_neg (fun h => hlisted h.1)]
      obtain ⟨hnotUpdated, hnotInserted⟩ := not_or.mp (fun h => hlisted (mem_append.mpr h))
      cases hnew : document.edges.get id with
      | none => rw [endpointsOf, hnew]; rfl
      | some new =>
        -- an edge that no pass put in was there before, and nothing took it out
        cases hold : previous.edges.get id with
        | none =>
          exact absurd (edge_mem_inserted_iff.mpr ⟨⟨new, hnew⟩, hold⟩) hnotInserted
        | some old =>
          have hsame : (old == new) = true := by
            by_contra hne
            exact hnotUpdated (edge_mem_updated_iff.mpr
              ⟨old, new, hold, hnew, Bool.not_eq_true _ ▸ hne⟩)
          have hprevious : previous.endpointsOf id = some (.fromEdge new) := by
            rw [endpointsOf, hold, ← fromEdge_of_beq hsame]
            rfl
          rw [(hkept (.fromEdge new)).mpr ⟨⟨hprevious, ?_⟩, ?_⟩] at hstate
          · cases hstate
          · rintro record hmem (rfl | ⟨node, rfl, hmatches⟩)
            · rw [edge_mem_removed_iff, hnew] at hmem
              cases hmem.2
            · exact node_stored_of_matches hvalid hnew hmatches (node_mem_removed_iff.mp hmem).2
          · rintro record hmem ⟨rfl, _⟩
            exact hnotUpdated hmem

section Sorting

variable {keys : List EdgeId}

theorem get_foldl_zipIdx (hnodup : keys.Nodup) (offset : Nat)
    (ordinals : IndexMap EdgeId Nat) (key : EdgeId) :
    ((keys.zipIdx offset).foldl (fun ordinals entry => ordinals.insert entry.1 entry.2)
      ordinals).get key =
      if key ∈ keys then some (offset + keys.idxOf key) else ordinals.get key := by
  induction keys generalizing offset ordinals with
  | nil => simp
  | cons first rest ih =>
    rw [nodup_cons] at hnodup
    rw [zipIdx_cons, foldl_cons, ih hnodup.2, get_insert]
    by_cases hrest : key ∈ rest
    · have hne : first ≠ key := fun h => hnodup.1 (h ▸ hrest)
      rw [if_pos hrest, if_pos (mem_cons_of_mem _ hrest), idxOf_cons_ne _ hne]
      congr 1
      omega
    · by_cases heq : first = key
      · subst heq
        simp [hrest]
      · have hnot : key ∉ first :: rest := by simp [hrest, Ne.symm heq]
        rw [if_neg hrest, if_neg heq, if_neg hnot]

theorem get_ordinalsOf (hnodup : keys.Nodup) {key : EdgeId}
    (hmem : key ∈ keys) : (ordinalsOf keys).get key = some (keys.idxOf key) := by
  rw [ordinalsOf, get_foldl_zipIdx hnodup, if_pos hmem, zero_add]

/-- Sorting by the ordinals of the document gives the order of the document. -/
theorem sortEdgeIds_eq {sorted edgeIds : List EdgeId} (hnodup : keys.Nodup)
    (hsorted : sorted.Sublist keys) (hperm : edgeIds.Perm sorted) :
    sortEdgeIds (ordinalsOf keys) edgeIds = sorted := by
  let rank := fun edgeId => ((ordinalsOf keys).get edgeId).getD USIZE_MAX
  have hrank : ∀ edgeId ∈ keys, rank edgeId = keys.idxOf edgeId := by
    intro edgeId hmem
    simp [rank, get_ordinalsOf hnodup hmem]
  have hordered : keys.Pairwise fun first second => decide (rank first ≤ rank second) := by
    rw [pairwise_iff_getElem]
    intro first second hfirst hsecond hlt
    rw [decide_eq_true_iff, hrank _ (getElem_mem _), hrank _ (getElem_mem _),
      hnodup.idxOf_getElem, hnodup.idxOf_getElem]
    exact le_of_lt hlt
  have hmerge : (sortEdgeIds (ordinalsOf keys) edgeIds).Pairwise
      fun first second => decide (rank first ≤ rank second) := by
    apply pairwise_mergeSort
    · intro first second third hfirst hsecond
      exact decide_eq_true (le_trans (of_decide_eq_true hfirst) (of_decide_eq_true hsecond))
    · intro first second
      rcases le_total (rank first) (rank second) with hle | hle
      · exact Bool.or_eq_true_iff.mpr (.inl (decide_eq_true hle))
      · exact Bool.or_eq_true_iff.mpr (.inr (decide_eq_true hle))
  have hresult : (sortEdgeIds (ordinalsOf keys) edgeIds).Perm sorted :=
    (mergeSort_perm _ _).trans hperm
  apply hresult.eq_of_pairwise ?_ hmerge (hordered.sublist hsorted)
  intro first second hfirst hsecond hle hge
  have hsecondKey := hsorted.subset hsecond
  have hfirstKey := hsorted.subset (hresult.subset hfirst)
  rw [decide_eq_true_iff, hrank _ hfirstKey, hrank _ hsecondKey] at hle hge
  exact (idxOf_inj hfirstKey).mp (le_antisymm hle hge)

theorem sorted_ids (index : CanvasGraphIndex) (document : CanvasDocument) (node : NodeId)
    (direction : CanvasEdgeDirection) :
    (index.refreshEdgeOrdinals document).sortAdjacencyByEdgeOrdinals.edgeIdsForNode node direction =
      sortEdgeIds (ordinalsOf document.edges.keys) (index.edgeIdsForNode node direction) := by
  have hlist : ∀ edges : EdgesByNode,
      ((edges.mapValues (sortEdgeIds (ordinalsOf document.edges.keys))).get node).getD [] =
        sortEdgeIds (ordinalsOf document.edges.keys) ((edges.get node).getD []) := by
    intro edges
    rw [get_mapValues]
    cases edges.get node with
    | none => simp [sortEdgeIds]
    | some edgeIds => rfl
  cases direction with
  | incoming => exact hlist index.incoming
  | outgoing => exact hlist index.outgoing
  | any => exact hlist index.incident

/-- Sorting a consistent index with the right ends makes it track the document. -/
theorem Consistent.tracks_sorted {index : CanvasGraphIndex} {document : CanvasDocument}
    (hconsistent : index.Consistent)
    (hendpoints : ∀ id, index.edgeEndpoints.get id = document.endpointsOf id) :
    (index.refreshEdgeOrdinals document).sortAdjacencyByEdgeOrdinals.Tracks document := by
  refine ⟨hendpoints, fun node direction => ?_⟩
  rw [sorted_ids]
  apply sortEdgeIds_eq document.edges.nodup filter_sublist
  rw [perm_ext_iff_of_nodup (hconsistent.nodup node direction) (document.edges.nodup.filter _)]
  intro id
  rw [hconsistent.mem_iff, hendpoints]
  exact (document.mem_edgesAt_iff node direction id).symm

end Sorting

section Rebuild

variable {document : CanvasDocument}

theorem edgesAt_eq (hkeyed : document.WellKeyed) (node : NodeId) (direction : CanvasEdgeDirection) :
    document.edgesAt node direction = (document.edges.values.filter fun edge =>
        (CanvasGraphEndpointIds.fromEdge edge).matchesNode node direction).map (·.id) := by
  rw [edgesAt, IndexMap.keys, IndexMap.values, filter_map, filter_map, map_map]
  have hentry : ∀ entry ∈ document.edges.entries, document.edges.get entry.1 = some entry.2 :=
    fun entry hmem => get_eq_some_iff.mpr hmem
  have hfilter : document.edges.entries.filter
        ((fun id => (document.endpointsOf id).any fun endpoints =>
          decide (endpoints.matchesNode node direction)) ∘ Prod.fst) =
      document.edges.entries.filter
        ((fun edge => decide ((CanvasGraphEndpointIds.fromEdge edge).matchesNode node direction)) ∘
          Prod.snd) := by
    apply filter_congr
    intro entry hmem
    simp [endpointsOf, hentry entry hmem]
  rw [hfilter]
  apply map_congr_left
  intro entry hmem
  exact (hkeyed.edges entry.1 entry.2 (hentry entry (mem_of_mem_filter hmem))).symm

/-- Inserting new edges one after another appends them to the lists of their nodes. -/
theorem foldl_insertEdge (edges : List CanvasEdge) (hids : (edges.map (·.id)).Nodup)
    (index : CanvasGraphIndex) (hconsistent : index.Consistent)
    (habsent : ∀ edge ∈ edges, index.edgeEndpoints.get edge.id = none) :
    (∀ id endpoints, (edges.foldl insertEdge index).edgeEndpoints.get id = some endpoints ↔
      index.edgeEndpoints.get id = some endpoints ∨
        ∃ edge ∈ edges, edge.id = id ∧ endpoints = .fromEdge edge) ∧
    ∀ node direction, (edges.foldl insertEdge index).edgeIdsForNode node direction =
      index.edgeIdsForNode node direction ++ (edges.filter fun edge =>
        (CanvasGraphEndpointIds.fromEdge edge).matchesNode node direction).map (·.id) := by
  induction edges generalizing index with
  | nil => simp
  | cons edge rest ih =>
    rw [map_cons, nodup_cons] at hids
    have hfresh := habsent edge mem_cons_self
    have hrest : ∀ other ∈ rest, (index.insertEdge edge).edgeEndpoints.get other.id = none := by
      intro other hmem
      have hne : edge.id ≠ other.id := fun h => hids.1 (h ▸ mem_map_of_mem hmem)
      rw [insertEdge_endpoints hfresh, if_neg hne]
      exact habsent other (mem_cons_of_mem _ hmem)
    obtain ⟨hget, hlists⟩ := ih hids.2 (index.insertEdge edge) (hconsistent.insertEdge hfresh) hrest
    refine ⟨fun id endpoints => ?_, fun node direction => ?_⟩
    · rw [foldl_cons, hget, insertEdge_endpoints hfresh]
      by_cases heq : edge.id = id
      · subst heq
        simp [hfresh, eq_comm (b := endpoints)]
      · simp [heq]
    · rw [foldl_cons, hlists]
      by_cases hmatches : (CanvasGraphEndpointIds.fromEdge edge).matchesNode node direction
      · rw [insertEdge_ids_of_matches hconsistent hfresh hmatches]
        simp [hmatches]
      · rw [insertEdge_ids_of_not_matches hfresh hmatches]
        simp [hmatches]

theorem rebuild_tracks (hkeyed : document.WellKeyed) : (rebuild document).Tracks document := by
  have hempty : default.Consistent := by
    refine ⟨?_, ?_⟩
    · rintro node (_ | _ | _) <;> exact nodup_nil
    · rintro node (_ | _ | _) id <;>
        simp [default, edgeIdsForNode, incomingEdgeIds, outgoingEdgeIds, incidentEdgeIds]
  obtain ⟨hget, hlists⟩ := foldl_insertEdge document.edges.values
    (hkeyed.edges_values_ids ▸ document.edges.nodup) default hempty (fun _ _ => rfl)
  refine ⟨fun id => ?_, fun node direction => ?_⟩
  · ext endpoints
    rw [rebuild, refreshEdgeOrdinals, hget, endpointsOf, Option.map_eq_some_iff]
    constructor
    · rintro (hnone | ⟨edge, hmem, rfl, rfl⟩)
      · cases hnone
      · exact ⟨edge, hkeyed.edges.get_of_mem_values hmem, rfl⟩
    · rintro ⟨edge, hedge, rfl⟩
      exact .inr ⟨edge, mem_values_iff.mpr ⟨id, hedge⟩, hkeyed.edges id edge hedge, rfl⟩
  · rw [edgesAt_eq hkeyed]
    exact (hlists node direction).trans (by
      cases direction <;> rfl)

end Rebuild

/-- Some edge is new, gone, or joins other nodes. -/
def TopologyChanged (document previous : CanvasDocument) : Prop :=
  ∃ id, document.endpointsOf id ≠ previous.endpointsOf id

/-- The edges at each node stand in the same order. -/
def SameEdgeOrder (document previous : CanvasDocument) : Prop :=
  ∀ node, document.edgesAt node .any = previous.edgesAt node .any

variable {document previous : CanvasDocument}

/-- With the same ends, the order of all edges at a node decides the order of those
in one direction. -/
theorem edgesAt_of_any (hends : ∀ id, document.endpointsOf id = previous.endpointsOf id)
    (horder : SameEdgeOrder document previous) (node : NodeId) (direction : CanvasEdgeDirection) :
    document.edgesAt node direction = previous.edgesAt node direction := by
  have hany : ∀ other : CanvasDocument, other.edgesAt node direction =
      (other.edgesAt node .any).filter fun id =>
        (other.endpointsOf id).any fun endpoints => endpoints.matchesNode node direction := by
    intro other
    rw [edgesAt, edgesAt, filter_filter]
    apply filter_congr
    intro id _
    cases other.endpointsOf id with
    | none => rfl
    | some endpoints =>
      cases direction with
      | incoming =>
        by_cases htarget : endpoints.target = node <;>
          simp [matchesNode, htarget]
      | outgoing =>
        by_cases hsource : endpoints.source = node <;>
          simp [matchesNode, hsource]
      | any => simp
  rw [hany document, hany previous, horder node]
  apply filter_congr
  intro id _
  rw [hends]

theorem foldl_eq_of_fixed {σ α : Type} {step : σ → α → σ} {state : σ} {items : List α}
    (hstep : ∀ item ∈ items, step state item = state) : items.foldl step state = state := by
  induction items with
  | nil => rfl
  | cons item rest ih =>
    rw [foldl_cons, hstep item mem_cons_self]
    exact ih fun other hmem => hstep other (mem_cons_of_mem _ hmem)

/-- When every edge joins the nodes it joined before, the passes change nothing. -/
theorem applyRecords_of_same {index : CanvasGraphIndex}
    (hvalid : document.Valid) (htracks : index.Tracks previous)
    (hends : ∀ id, document.endpointsOf id = previous.endpointsOf id) :
    index.applyRecords document (document.diffAgainst previous) = (false, index) := by
  have hstored : ∀ id edge, document.edges.get id = some edge →
      index.edgeEndpoints.get id = some (.fromEdge edge) := by
    intro id edge hget
    rw [htracks.endpoints, ← hends, endpointsOf, hget]
    rfl
  have hremoved : ∀ record ∈ (document.diffAgainst previous).removed,
      applyRemoved (false, index) record = (false, index) := by
    intro record hmem
    cases record with
    | edge id =>
      obtain ⟨⟨old, hold⟩, hnone⟩ := edge_mem_removed_iff.mp hmem
      have hid := hends id
      rw [endpointsOf, endpointsOf, hold, hnone] at hid
      cases hid
    | node node =>
      have hgone := (node_mem_removed_iff.mp hmem).2
      have hempty : index.incidentEdgeIds node = [] := by
        rw [eq_nil_iff_forall_not_mem]
        intro id hid
        obtain ⟨endpoints, hget, hmatches⟩ := (htracks.consistent.mem_iff node .any id).mp hid
        rw [htracks.endpoints, ← hends] at hget
        obtain ⟨edge, hedge, rfl⟩ := Option.map_eq_some_iff.mp hget
        exact node_stored_of_matches hvalid hedge hmatches hgone
      rw [applyRemoved, hempty, foldl_nil]
    | shape shape => rfl
  have hupdated : ∀ record ∈ (document.diffAgainst previous).updated,
      applyUpdated document (false, index) record = (false, index) := by
    intro record _
    cases record with
    | edge id =>
      rw [applyUpdated]
      cases hedge : document.edges.get id with
      | none => cases index.edgeEndpoints.get id <;> rfl
      | some edge => simp [hstored id edge hedge, CanvasGraphEndpointIds.fromEdge]
    | node node => rfl
    | shape shape => rfl
  have hinserted : ∀ record, applyInserted document (false, index) record = (false, index) := by
    intro record
    cases record with
    | edge id =>
      rw [applyInserted]
      cases hedge : document.edges.get id with
      | none => rfl
      | some edge =>
        have hkey := containsKey_iff.mpr ⟨_, hstored id edge hedge⟩
        exact if_pos hkey
    | node node => rfl
    | shape shape => rfl
  rw [applyRecords, foldl_eq_of_fixed hremoved, foldl_eq_of_fixed hupdated,
    foldl_eq_of_fixed fun record _ => hinserted record]

theorem applyDiff_eq (index : CanvasGraphIndex) (document : CanvasDocument)
    (diff : CanvasDocumentDiff) :
    index.applyDiff document diff =
      if (index.applyRecords document diff).1 then
        ((index.applyRecords document diff).2.refreshEdgeOrdinals
          document).sortAdjacencyByEdgeOrdinals
      else (index.applyRecords document diff).2 := by
  rw [applyDiff]
  by_cases hempty : diff.isEmpty = true
  · have hnone : index.applyRecords document diff = (false, index) := by
      simp only [CanvasDocumentDiff.isEmpty, Bool.and_eq_true, List.isEmpty_iff] at hempty
      simp [applyRecords, hempty.1.1.2, hempty.1.1.1.1, hempty.1.1.1.2]
    rw [if_pos hempty, hnone]
    rfl
  · rw [if_neg hempty]

/-- An index that tracked the earlier document tracks the later one exactly when the
topology changed or the edges at each node kept their order. -/
theorem applyDiff_tracks_iff {index : CanvasGraphIndex}
    (hvalid : document.Valid) (htracks : index.Tracks previous) :
    (index.applyDiff document (document.diffAgainst previous)).Tracks document ↔
      TopologyChanged document previous ∨ SameEdgeOrder document previous := by
  obtain ⟨hconsistent, hendpoints⟩ := applyRecords_spec hvalid htracks
  rw [applyDiff_eq]
  by_cases hends : ∀ id, document.endpointsOf id = previous.endpointsOf id
  · have hnone := applyRecords_of_same hvalid htracks hends
    rw [hnone] at hendpoints ⊢
    rw [if_neg (by simp)]
    constructor
    · intro hlast
      right
      intro node
      rw [← hlast.ids, htracks.ids]
    · rintro (⟨id, hid⟩ | horder)
      · exact absurd (hends id) hid
      · refine ⟨hendpoints, fun node direction => ?_⟩
        rw [edgesAt_of_any hends horder]
        exact htracks.ids node direction
  · refine iff_of_true ?_ (.inl (not_forall.mp hends))
    by_cases hchanged : (index.applyRecords document (document.diffAgainst previous)).1 = true
    · rw [if_pos hchanged]
      exact hconsistent.tracks_sorted hendpoints
    · have hnone := applyRecords_of_false (Bool.not_eq_true _ ▸ hchanged)
      rw [hnone] at hendpoints
      exact absurd (fun id => (hendpoints id).symm.trans (htracks.endpoints id)) hends

end CanvasGraphIndex

end OpenGpui.Canvas
