/-
What a selection is reduced to, told by the owners of its records, and which of its
records the scope of the reduced selection covers.
-/
import Mathlib.Data.Set.Finite.Basic
import Mathlib.Order.WellFounded
import OpenGpui.Canvas.CommandSpecs
import OpenGpui.Canvas.RecordScope

namespace OpenGpui.Canvas

open List CanvasDocumentBuilder CanvasRecordRelations CanvasSelection IndexMap Relation Worklist
open CanvasRecordId

section Sets

variable {α β : Type} [DecidableEq α] [DecidableEq β] {values : List α} {value : α}

theorem mem_insertOnce {other : α} :
    other ∈ insertOnce values value ↔ other ∈ values ∨ other = value := by
  rw [insertOnce]
  by_cases hmem : value ∈ values
  · rw [if_pos hmem]
    constructor
    · exact .inl
    · rintro (hold | rfl)
      · exact hold
      · exact hmem
  · rw [if_neg hmem, mem_append, mem_singleton]

theorem nodup_insertOnce (hnodup : values.Nodup) : (insertOnce values value).Nodup := by
  rw [insertOnce]
  by_cases hmem : value ∈ values
  · rwa [if_pos hmem]
  · rw [if_neg hmem, nodup_append]
    refine ⟨hnodup, nodup_singleton _, ?_⟩
    rintro other hother same hsame rfl
    rw [mem_singleton.mp hsame] at hother
    exact hmem hother

variable {added : List α}

theorem mem_foldl_insertOnce :
    value ∈ added.foldl insertOnce values ↔ value ∈ values ∨ value ∈ added := by
  induction added generalizing values with
  | nil => simp
  | cons head rest ih =>
    rw [foldl_cons, ih, mem_insertOnce, mem_cons, or_assoc]

theorem nodup_foldl_insertOnce (hnodup : values.Nodup) : (added.foldl insertOnce values).Nodup := by
  induction added generalizing values with
  | nil => exact hnodup
  | cons head rest ih => exact ih (nodup_insertOnce hnodup)

/-- New and distinct values are appended. -/
theorem foldl_insertOnce_eq_append (hnodup : (values ++ added).Nodup) :
    added.foldl insertOnce values = values ++ added := by
  induction added generalizing values with
  | nil => simp
  | cons head rest ih =>
    have hfresh : head ∉ values := by
      intro hmem
      exact (nodup_append.mp hnodup).2.2 head hmem head mem_cons_self rfl
    rw [append_cons] at hnodup
    rw [foldl_cons, insertOnce, if_neg hfresh, ih hnodup, ← append_cons]

@[simp] theorem mem_collectSet : value ∈ collectSet values ↔ value ∈ values := by
  simp [collectSet, mem_foldl_insertOnce]

theorem nodup_collectSet (values : List α) : (collectSet values).Nodup :=
  nodup_foldl_insertOnce nodup_nil

theorem collectSet_of_nodup (hnodup : values.Nodup) : collectSet values = values := by
  rw [collectSet, foldl_insertOnce_eq_append (by simpa using hnodup), nil_append]

end Sets

namespace CanvasRecordId

def edgeId? : CanvasRecordId → Option EdgeId
  | edge id => some id
  | node _ | shape _ => none

def shapeId? : CanvasRecordId → Option ShapeId
  | shape id => some id
  | node _ | edge _ => none

end CanvasRecordId

namespace CanvasDocument

/-- One record owns another, directly or through others. -/
def Above (document : CanvasDocument) : CanvasRecordId → CanvasRecordId → Prop :=
  Relation.TransGen document.Owns

/-- A record stands at or below another. -/
def AtOrAbove (document : CanvasDocument) : CanvasRecordId → CanvasRecordId → Prop :=
  Relation.ReflTransGen document.Owns

section Owners

variable {document : CanvasDocument} {owner owned : CanvasRecordId}

theorem mem_ownedBy_iff : owned ∈ document.relations.ownedBy owner ↔ document.Owns owner owned := by
  rw [ownedBy, mem_append]
  constructor
  · rintro (hchild | hmember)
    · obtain ⟨relation, hmem, rfl⟩ := mem_map.mp hchild
      obtain ⟨hrelation, hsame⟩ := mem_filter.mp hmem
      rw [← eq_of_beq hsame]
      exact .inl hrelation
    · obtain ⟨relation, hmem, rfl⟩ := mem_map.mp hmember
      obtain ⟨hrelation, hsame⟩ := mem_filter.mp hmem
      rw [← eq_of_beq hsame]
      exact .inr hrelation
  · rintro (hparent | hgroup)
    · exact .inl (mem_map.mpr ⟨_, mem_filter.mpr ⟨hparent, beq_self_eq_true _⟩, rfl⟩)
    · exact .inr (mem_map.mpr ⟨_, mem_filter.mpr ⟨hgroup, beq_self_eq_true _⟩, rfl⟩)

/-- Where a child has one parent, the first parent that is found is the only one. -/
theorem mem_ownersOf_iff (hrelations : document.RelationsWellFormed) :
    owner ∈ document.relations.ownersOf owned ↔ document.Owns owner owned := by
  rw [ownersOf, mem_append, Option.mem_toList, parentOf]
  constructor
  · rintro (hparent | hgroup)
    · obtain ⟨relation, hfind, rfl⟩ := Option.map_eq_some_iff.mp hparent
      have hsame : relation.child = owned := by simpa using find?_some hfind
      rw [← hsame]
      exact .inl (mem_of_find?_eq_some hfind)
    · obtain ⟨relation, hmem, rfl⟩ := mem_map.mp hgroup
      obtain ⟨hrelation, hsame⟩ := mem_filter.mp hmem
      rw [← eq_of_beq hsame]
      exact .inr hrelation
  · rintro (hparent | hgroup)
    · left
      have hsome : (document.relations.parents.find? fun relation =>
          relation.child == owned).isSome := by
        rw [find?_isSome]
        exact ⟨_, hparent, by simp⟩
      obtain ⟨relation, hfind⟩ := Option.isSome_iff_exists.mp hsome
      have hsame : relation.child = owned := by simpa using find?_some hfind
      have hrelation : relation = ⟨owned, owner⟩ :=
        inj_on_of_nodup_map hrelations.parentUnique (mem_of_find?_eq_some hfind) hparent hsame
      rw [hfind, hrelation]
      rfl
    · exact .inr (mem_map.mpr ⟨_, mem_filter.mpr ⟨hgroup, beq_self_eq_true _⟩, rfl⟩)

theorem nodup_ownedRecords (relations : CanvasRecordRelations) : relations.ownedRecords.Nodup :=
  nodup_dedup _

theorem mem_ownedRecords_iff :
    owned ∈ document.relations.ownedRecords ↔ ∃ owner, document.Owns owner owned := by
  rw [ownedRecords, mem_dedup, mem_append, mem_map, mem_map]
  constructor
  · rintro (⟨relation, hmem, rfl⟩ | ⟨relation, hmem, rfl⟩)
    · exact ⟨relation.parent, .inl hmem⟩
    · exact ⟨relation.group, .inr hmem⟩
  · rintro ⟨owner, hparent | hgroup⟩
    · exact .inl ⟨_, hparent, rfl⟩
    · exact .inr ⟨_, hgroup, rfl⟩

theorem RelationsWellFormed.contains_owned (hrelations : document.RelationsWellFormed)
    (howns : document.Owns owner owned) :
    document.containsRecord owned = true := by
  rcases howns with hparent | hgroup
  · exact (hrelations.parentsJoin _ hparent).2.1
  · exact (hrelations.groupsJoin _ hgroup).2.2

theorem reaches_ownersOf_iff (hrelations : document.RelationsWellFormed) :
    Worklist.Reaches document.relations.ownersOf owned owner ↔ document.AtOrAbove owner owned := by
  have hstep : (fun source target => target ∈ document.relations.ownersOf source) =
      Function.swap document.Owns := by
    funext source target
    exact propext (mem_ownersOf_iff hrelations)
  rw [Worklist.Reaches, hstep, AtOrAbove, reflTransGen_swap]

theorem hasCandidateAncestor_iff (hrelations : document.RelationsWellFormed)
    {recordId : CanvasRecordId} {candidates : List CanvasRecordId} :
    hasCandidateAncestor document recordId candidates = true ↔
      ∃ ancestor ∈ candidates, document.Above ancestor recordId := by
  have hsupport : ∀ id, id ∉ document.relations.ownedRecords →
      document.relations.ownersOf id = [] := by
    intro id hnot
    apply eq_nil_iff_forall_not_mem.mpr
    intro owner hmem
    exact hnot (mem_ownedRecords_iff.mpr ⟨owner, (mem_ownersOf_iff hrelations).mp hmem⟩)
  rw [hasCandidateAncestor,
    meets_iff (nodup_ownedRecords document.relations) hsupport (Nat.le_refl _)]
  constructor
  · rintro ⟨start, hstart, target, hreach, hgoal⟩
    refine ⟨target, of_decide_eq_true hgoal, ?_⟩
    exact Relation.TransGen.tail' ((reaches_ownersOf_iff hrelations).mp hreach)
      ((mem_ownersOf_iff hrelations).mp (mem_reverse.mp hstart))
  · rintro ⟨ancestor, hmem, habove⟩
    obtain ⟨start, hreach, howns⟩ := Relation.TransGen.tail'_iff.mp habove
    exact ⟨start, mem_reverse.mpr ((mem_ownersOf_iff hrelations).mpr howns), ancestor,
      (reaches_ownersOf_iff hrelations).mpr hreach, decide_eq_true hmem⟩

theorem admittedStep_iff (hrelations : document.RelationsWellFormed) :
    Worklist.AdmittedStep document.relations.ownedBy document.containsRecord owner owned ↔
      document.Owns owner owned := by
  rw [Worklist.AdmittedStep, mem_ownedBy_iff]
  constructor
  · exact And.left
  · exact fun howns => ⟨howns, hrelations.contains_owned howns⟩

theorem mem_collectFrom_iff (hrelations : document.RelationsWellFormed) {target : CanvasRecordId}
    {records pending : List CanvasRecordId} (hrecords : ∀ id ∈ records, id ∈ pending) :
    target ∈ document.relations.collectFrom document.containsRecord (records, pending) ↔
      target ∈ records ∨ ∃ start ∈ pending, document.Above start target := by
  have hstep : Worklist.AdmittedStep document.relations.ownedBy document.containsRecord =
      document.Owns := by
    funext owner owned
    exact propext (admittedStep_iff hrelations)
  have hsupport : ∀ owner, ∀ owned ∈ document.relations.ownedBy owner,
      owned ∈ document.relations.ownedRecords := fun owner owned hmem =>
    mem_ownedRecords_iff.mpr ⟨owner, mem_ownedBy_iff.mp hmem⟩
  have hfuel : pending.length + Worklist.missing document.relations.ownedRecords records ≤
        pending.length + document.relations.ownedRecords.length :=
    Nat.add_le_add_left (length_filter_le _ _) _
  rw [collectFrom, mem_gather_iff hsupport hfuel hrecords, hstep]
  rfl

theorem mem_collectDescendantRecords_iff (hrelations : document.RelationsWellFormed)
    {target : CanvasRecordId} {seeds : List CanvasRecordId}
    (hseeds : ∀ id ∈ seeds, document.containsRecord id = true) :
    target ∈ document.relations.collectDescendantRecords seeds document.containsRecord ↔
      ∃ seed ∈ seeds, document.Above seed target := by
  rw [collectDescendantRecords, mem_collectFrom_iff hrelations (by simp), filter_eq_self.mpr hseeds]
  simp

theorem mem_collectRelatedRecords_iff (hrelations : document.RelationsWellFormed)
    {target : CanvasRecordId} {seeds : List CanvasRecordId}
    (hseeds : ∀ id ∈ seeds, document.containsRecord id = true) :
    target ∈ document.relations.collectRelatedRecords seeds document.containsRecord ↔
      ∃ seed ∈ seeds, document.AtOrAbove seed target := by
  obtain ⟨added, -, hfold, hadded, hall⟩ :=
    @foldl_gatherOne _ _ document.containsRecord seeds ([], [])
  have hsame : ∀ id, id ∈ added ↔ id ∈ seeds := by
    intro id
    constructor
    · exact fun hmem => (hadded id hmem).1
    · intro hmem
      simpa using hall id hmem (hseeds id hmem)
  rw [collectRelatedRecords, hfold, mem_collectFrom_iff hrelations (by simp)]
  simp only [nil_append, append_nil, mem_reverse, hsame]
  constructor
  · rintro (hmem | ⟨start, hmem, habove⟩)
    · exact ⟨target, hmem, Relation.ReflTransGen.refl⟩
    · exact ⟨start, hmem, habove.to_reflTransGen⟩
  · rintro ⟨seed, hmem, hreach⟩
    rcases reflTransGen_iff_eq_or_transGen.mp hreach with rfl | habove
    · exact .inl hmem
    · exact .inr ⟨seed, hmem, habove⟩

end Owners

section Normalization

/-- A selected and existing record with no such record above it. -/
structure IsTop (document : CanvasDocument) (selected : List CanvasRecordId)
    (id : CanvasRecordId) : Prop where
  mem : id ∈ selected
  contained : document.containsRecord id = true
  highest : ∀ other ∈ selected, document.containsRecord other = true → ¬ document.Above other id

/-- An edge record whose two ends are nodes with a property. -/
def EdgeJoins (document : CanvasDocument) (good : CanvasRecordId → Prop)
    (id : CanvasRecordId) : Prop :=
  ∃ edgeId edge, id = .edge edgeId ∧ document.edges.get edgeId = some edge ∧
    good (.node edge.source.nodeId) ∧ good (.node edge.target.nodeId)

variable {id : CanvasRecordId}

theorem EdgeJoins.mono {document : CanvasDocument} {good better : CanvasRecordId → Prop}
    (himp : ∀ id, good id → better id) (h : document.EdgeJoins good id) :
    document.EdgeJoins better id := by
  obtain ⟨edgeId, edge, hid, hget, hsource, htarget⟩ := h
  exact ⟨edgeId, edge, hid, hget, himp _ hsource, himp _ htarget⟩

/-- The record stands at or below a top record that is not an edge. -/
def UnderTop (document : CanvasDocument) (selected : List CanvasRecordId)
    (id : CanvasRecordId) : Prop :=
  ∃ top, document.IsTop selected top ∧ top.isEdge = false ∧ document.AtOrAbove top id

/-- A top edge between nodes at or below top records is left to the internal edges. -/
def IsSuppressed (document : CanvasDocument) (selected : List CanvasRecordId)
    (id : CanvasRecordId) : Prop :=
  document.IsTop selected id ∧ document.EdgeJoins (document.UnderTop selected) id

def IsKept (document : CanvasDocument) (selected : List CanvasRecordId)
    (id : CanvasRecordId) : Prop :=
  document.IsTop selected id ∧ ¬ document.EdgeJoins (document.UnderTop selected) id

/-- The record stands at or below a record that is kept. -/
def UnderKept (document : CanvasDocument) (selected : List CanvasRecordId)
    (id : CanvasRecordId) : Prop :=
  ∃ kept, document.IsKept selected kept ∧ document.AtOrAbove kept id

variable {document : CanvasDocument} {selected : List CanvasRecordId}

theorem IsTop.isKept (htop : document.IsTop selected id)
    (hedge : id.isEdge = false) : document.IsKept selected id := by
  refine ⟨htop, ?_⟩
  rintro ⟨edgeId, edge, rfl, -⟩
  cases hedge

theorem UnderTop.underKept (h : document.UnderTop selected id) :
    document.UnderKept selected id := by
  obtain ⟨top, htop, hedge, hreach⟩ := h
  exact ⟨top, htop.isKept hedge, hreach⟩

/-- Without cycles there is a top record at or above every selected one. -/
theorem exists_isTop (hrelations : document.RelationsWellFormed)
    (hmem : id ∈ selected) (hcontained : document.containsRecord id = true) :
    ∃ top, document.IsTop selected top ∧ document.AtOrAbove top id := by
  let Candidate := { other // other ∈ selected }
  have hwf : WellFounded fun first second : Candidate => document.Above first.1 second.1 := by
    have htrans : IsTrans Candidate fun first second => document.Above first.1 second.1 :=
      ⟨fun _ _ _ => Relation.TransGen.trans⟩
    have hirrefl : Std.Irrefl fun first second : Candidate => document.Above first.1 second.1 :=
      ⟨fun candidate => hrelations.acyclic candidate.1⟩
    exact Finite.wellFounded_of_trans_of_irrefl _
  obtain ⟨⟨top, htop⟩, ⟨hreach, hexists⟩, hleast⟩ := hwf.has_min
    { candidate | document.AtOrAbove candidate.1 id ∧ document.containsRecord candidate.1 = true }
    ⟨⟨id, hmem⟩, Relation.ReflTransGen.refl, hcontained⟩
  refine ⟨top, ⟨htop, hexists, ?_⟩, hreach⟩
  intro other hother hcontains habove
  exact hleast ⟨other, hother⟩ ⟨habove.to_reflTransGen.trans hreach, hcontains⟩ habove

theorem mem_kept_iff (hrelations : document.RelationsWellFormed) :
    (id ∈ (collectSet (selected.filter document.containsRecord)).filter fun id =>
        !hasCandidateAncestor document id (collectSet (selected.filter document.containsRecord))) ↔
      document.IsTop selected id := by
  rw [mem_filter, mem_collectSet, mem_filter, Bool.not_eq_true',
    Bool.eq_false_iff, Ne, hasCandidateAncestor_iff hrelations]
  constructor
  · rintro ⟨⟨hmem, hcontained⟩, hnone⟩
    refine ⟨hmem, hcontained, ?_⟩
    intro other hother hcontains habove
    exact hnone ⟨other, mem_collectSet.mpr (mem_filter.mpr ⟨hother, hcontains⟩), habove⟩
  · rintro ⟨hmem, hcontained, hhighest⟩
    refine ⟨⟨hmem, hcontained⟩, ?_⟩
    rintro ⟨other, hother, habove⟩
    obtain ⟨hselected, hcontains⟩ := mem_filter.mp (mem_collectSet.mp hother)
    exact hhighest other hselected hcontains habove

theorem mem_selectedNodeIds_iff {records : List CanvasRecordId} {nodeId : NodeId} :
    nodeId ∈ selectedNodeIds records ↔ .node nodeId ∈ records := by
  rw [selectedNodeIds, mem_filterMap]
  constructor
  · rintro ⟨id, hmem, hid⟩
    cases id with
    | node other =>
      obtain rfl : other = nodeId := Option.some.inj hid
      exact hmem
    | edge | shape => cases hid
  · exact fun hmem => ⟨_, hmem, rfl⟩

theorem joinsNodes_iff {nodeIds : List NodeId} {edge : CanvasEdge} :
    joinsNodes nodeIds edge = true ↔
      edge.source.nodeId ∈ nodeIds ∧ edge.target.nodeId ∈ nodeIds := by
  rw [joinsNodes, Bool.and_eq_true, contains_iff_mem, contains_iff_mem]

theorem mem_suppressInternalEdgeCandidates_iff (hrelations : document.RelationsWellFormed)
    {candidates : List CanvasRecordId}
    (hcandidates : ∀ id, id ∈ candidates ↔ document.IsTop selected id) :
    id ∈ suppressInternalEdgeCandidates document candidates ↔ document.IsKept selected id := by
  have hscope : ∀ nodeId, nodeId ∈ selectedNodeIds (document.relations.collectRelatedRecords
      (candidates.filter fun id => !id.isEdge) document.containsRecord) ↔
      document.UnderTop selected (.node nodeId) := by
    intro nodeId
    rw [mem_selectedNodeIds_iff, mem_collectRelatedRecords_iff hrelations]
    · constructor
      · rintro ⟨seed, hseed, hreach⟩
        obtain ⟨hmem, hedge⟩ := mem_filter.mp hseed
        exact ⟨seed, (hcandidates seed).mp hmem, by simpa using hedge, hreach⟩
      · rintro ⟨top, htop, hedge, hreach⟩
        exact ⟨top, mem_filter.mpr ⟨(hcandidates top).mpr htop, by simpa using hedge⟩, hreach⟩
    · intro seed hseed
      exact ((hcandidates seed).mp (mem_of_mem_filter hseed)).contained
  rw [suppressInternalEdgeCandidates, mem_filter, hcandidates]
  apply and_congr_right
  intro htop
  cases id with
  | node | shape =>
    refine iff_of_true rfl ?_
    rintro ⟨_, _, hid, -⟩
    cases hid
  | edge edgeId =>
    have hcontained := htop.contained
    rw [containsRecord, containsKey_iff] at hcontained
    obtain ⟨edge, hget⟩ := hcontained
    simp only [hget, Bool.not_eq_true', Bool.eq_false_iff, Ne, joinsNodes_iff, hscope]
    apply not_congr
    constructor
    · rintro ⟨hsource, htarget⟩
      exact ⟨edgeId, edge, rfl, hget, hsource, htarget⟩
    · rintro ⟨otherId, other, hid, hother, hsource, htarget⟩
      cases hid
      obtain rfl : edge = other := Option.some.inj (hget.symm.trans hother)
      exact ⟨hsource, htarget⟩

/-- The normal form of a list of records keeps the top ones that are not suppressed. -/
theorem mem_normalizeRecordCandidates_iff (hrelations : document.RelationsWellFormed) :
    id ∈ normalizeRecordCandidates document selected ↔ document.IsKept selected id := by
  rw [normalizeRecordCandidates]
  by_cases hedge : (((collectSet (selected.filter document.containsRecord)).filter fun id =>
      !hasCandidateAncestor document id
        (collectSet (selected.filter document.containsRecord))).any (·.isEdge)) = true
  · simp only [hedge, if_true]
    exact mem_suppressInternalEdgeCandidates_iff hrelations fun id => mem_kept_iff hrelations
  · simp only [hedge, if_false, Bool.false_eq_true]
    rw [mem_kept_iff hrelations]
    refine ⟨fun htop => htop.isKept ?_, And.left⟩
    rw [Bool.eq_false_iff]
    intro hid
    exact hedge (any_eq_true.mpr ⟨id, (mem_kept_iff hrelations).mpr htop, hid⟩)

theorem normalizeRecordCandidates_sublist (document : CanvasDocument)
    (selected : List CanvasRecordId) :
    (normalizeRecordCandidates document selected).Sublist
      (collectSet (selected.filter document.containsRecord)) := by
  unfold normalizeRecordCandidates
  dsimp only
  split
  · exact filter_sublist.trans filter_sublist
  · exact filter_sublist

variable {kept : List CanvasRecordId}

/-- What is kept is kept again. -/
theorem isKept_of_kept (hkept : ∀ id, id ∈ kept ↔ document.IsKept selected id)
    (hmem : id ∈ kept) : document.IsKept kept id := by
  have htop : ∀ other ∈ kept, document.IsTop kept other := by
    intro other hother
    have hother' := (hkept other).mp hother
    refine ⟨hother, hother'.1.contained, ?_⟩
    intro above habove hcontains
    exact hother'.1.highest above ((hkept above).mp habove).1.mem hcontains
  refine ⟨htop id hmem, ?_⟩
  intro hjoins
  apply ((hkept id).mp hmem).2
  apply hjoins.mono
  rintro under ⟨top, hkeptTop, hedge, hreach⟩
  exact ⟨top, ((hkept top).mp hkeptTop.mem).1, hedge, hreach⟩

theorem normalizeRecordCandidates_of_kept (hrelations : document.RelationsWellFormed)
    (hnodup : kept.Nodup) (hkept : ∀ id, id ∈ kept ↔ document.IsKept selected id) :
    normalizeRecordCandidates document kept = kept := by
  have hcontained : kept.filter document.containsRecord = kept := by
    apply filter_eq_self.mpr
    intro id hmem
    exact ((hkept id).mp hmem).1.contained
  have hsub := normalizeRecordCandidates_sublist document kept
  rw [hcontained, collectSet_of_nodup hnodup] at hsub
  apply hsub.eq_of_length_le
  apply List.Subperm.length_le
  apply subperm_of_subset hnodup
  intro id hmem
  exact (mem_normalizeRecordCandidates_iff hrelations).mpr (isKept_of_kept hkept hmem)

end Normalization

variable {document : CanvasDocument} {selection : CanvasSelection}

theorem foldl_insertRecord (records : List CanvasRecordId) (selection : CanvasSelection) :
    records.foldl insertRecord selection =
      { nodes := (selectedNodeIds records).foldl insertOnce selection.nodes
        edges := (records.filterMap (·.edgeId?)).foldl insertOnce selection.edges
        shapes := (records.filterMap (·.shapeId?)).foldl insertOnce selection.shapes
        handles := selection.handles } := by
  induction records generalizing selection with
  | nil => rfl
  | cons id rest ih =>
    rw [foldl_cons, ih]
    cases id <;> rfl

theorem foldl_insertHandle (endpoints : List CanvasEndpoint) (selection : CanvasSelection) :
    endpoints.foldl insertHandle selection =
      { selection with handles := endpoints.foldl insertOnce selection.handles } := by
  induction endpoints generalizing selection with
  | nil => rfl
  | cons endpoint rest ih =>
    rw [foldl_cons, ih]
    rfl

/-- The ids a function reads off distinct records are distinct when they name them. -/
theorem nodup_filterMap_ids {name : CanvasRecordId → Option String} {tag : String → CanvasRecordId}
    (hname : ∀ id value, name id = some value → id = tag value) {records : List CanvasRecordId}
    (hnodup : records.Nodup) : (records.filterMap name).Nodup := by
  apply hnodup.filterMap
  intro first second value hfirst hsecond
  rw [hname first value hfirst, hname second value hsecond]

theorem nodup_recordIds {records : List CanvasRecordId} (hnodup : records.Nodup) :
    (selectedNodeIds records).Nodup ∧ (records.filterMap (·.edgeId?)).Nodup ∧
      (records.filterMap (·.shapeId?)).Nodup := by
  refine ⟨@nodup_filterMap_ids _ .node ?_ _ hnodup, @nodup_filterMap_ids _ .edge ?_ _ hnodup,
    @nodup_filterMap_ids _ .shape ?_ _ hnodup⟩ <;>
  · intro id value hid
    cases id <;> cases hid
    rfl

theorem nodup_normalizeRecordCandidates (document : CanvasDocument)
    (selected : List CanvasRecordId) : (normalizeRecordCandidates document selected).Nodup :=
  (nodup_collectSet _).sublist (normalizeRecordCandidates_sublist document selected)

/-- Whether the node of an endpoint exists, with its handle if it names one. -/
def endpointExists (document : CanvasDocument) (endpoint : CanvasEndpoint) : Bool :=
  match document.validateEndpoint endpoint with
  | .ok _ => true
  | .error _ => false

theorem normalizeSelection_eq (document : CanvasDocument) (selection : CanvasSelection) :
    normalizeSelection document selection =
      { nodes := selectedNodeIds (normalizeRecordCandidates document selection.selectedRecords)
        edges := (normalizeRecordCandidates document selection.selectedRecords).filterMap
          (·.edgeId?)
        shapes := (normalizeRecordCandidates document selection.selectedRecords).filterMap
          (·.shapeId?)
        handles := collectSet (selection.handles.filter document.endpointExists) } := by
  have hnodup := nodup_normalizeRecordCandidates document selection.selectedRecords
  rw [normalizeSelection, foldl_insertRecord, foldl_insertHandle]
  generalize normalizeRecordCandidates document selection.selectedRecords = records at hnodup
  obtain ⟨hnodes, hedges, hshapes⟩ := nodup_recordIds hnodup
  change CanvasSelection.mk (collectSet (selectedNodeIds records))
    (collectSet (records.filterMap (·.edgeId?))) (collectSet (records.filterMap (·.shapeId?)))
    (collectSet _) = _
  rw [collectSet_of_nodup hnodes, collectSet_of_nodup hedges, collectSet_of_nodup hshapes]
  rfl

variable {id : CanvasRecordId}

theorem mem_selectedRecords_normalize_iff :
    id ∈ (normalizeSelection document selection).selectedRecords ↔
      id ∈ normalizeRecordCandidates document selection.selectedRecords := by
  rw [normalizeSelection_eq]
  rw [selectedRecords, mem_append, mem_append, mem_map, mem_map, mem_map]
  cases id with
  | node nodeId => simp [mem_selectedNodeIds_iff]
  | edge edgeId =>
    simp only [reduceCtorEq, and_false, exists_false, false_or, or_false,
      edge.injEq, exists_eq_right, mem_filterMap]
    constructor
    · rintro ⟨other, hmem, hid⟩
      cases other <;> cases hid
      exact hmem
    · exact fun hmem => ⟨_, hmem, rfl⟩
  | shape shapeId =>
    simp only [reduceCtorEq, and_false, exists_false, false_or,
      shape.injEq, exists_eq_right, mem_filterMap]
    constructor
    · rintro ⟨other, hmem, hid⟩
      cases other <;> cases hid
      exact hmem
    · exact fun hmem => ⟨_, hmem, rfl⟩

theorem nodup_selectedRecords {selection : CanvasSelection} (hnodes : selection.nodes.Nodup)
    (hedges : selection.edges.Nodup) (hshapes : selection.shapes.Nodup) :
    selection.selectedRecords.Nodup := by
  rw [selectedRecords, nodup_append, nodup_append]
  refine ⟨⟨hnodes.map fun _ _ => node.inj, hedges.map fun _ _ =>
    edge.inj, ?_⟩, hshapes.map fun _ _ => shape.inj, ?_⟩
  · simp
  · rintro first hfirst second hsecond rfl
    obtain ⟨shapeId, -, rfl⟩ := mem_map.mp hsecond
    simp at hfirst

theorem isKept_iff_mem_normalize (hrelations : document.RelationsWellFormed) :
    id ∈ (normalizeSelection document selection).selectedRecords ↔
      document.IsKept selection.selectedRecords id := by
  rw [mem_selectedRecords_normalize_iff, mem_normalizeRecordCandidates_iff hrelations]

theorem nodup_selectedRecords_normalize (document : CanvasDocument) (selection : CanvasSelection) :
    (normalizeSelection document selection).selectedRecords.Nodup := by
  obtain ⟨hnodes, hedges, hshapes⟩ :=
    nodup_recordIds (nodup_normalizeRecordCandidates document selection.selectedRecords)
  rw [normalizeSelection_eq]
  exact nodup_selectedRecords hnodes hedges hshapes

theorem recordIds_selectedRecords (selection : CanvasSelection) :
    selectedNodeIds selection.selectedRecords = selection.nodes ∧
      selection.selectedRecords.filterMap (·.edgeId?) = selection.edges ∧
      selection.selectedRecords.filterMap (·.shapeId?) = selection.shapes := by
  simp only [selectedNodeIds, selectedRecords, filterMap_append, filterMap_map]
  refine ⟨?_, ?_, ?_⟩ <;>
    simp [Function.comp_def, nodeId?, edgeId?, shapeId?, filterMap_some]

/-- Normalizing a normal form gives it back. -/
theorem normalizeSelection_idem (hrelations : document.RelationsWellFormed) :
    normalizeSelection document (normalizeSelection document selection) =
      normalizeSelection document selection := by
  have hrecords := normalizeRecordCandidates_of_kept hrelations (nodup_selectedRecords_normalize
    document selection) (fun id => isKept_iff_mem_normalize hrelations)
  obtain ⟨hnodes, hedges, hshapes⟩ :=
    recordIds_selectedRecords (normalizeSelection document selection)
  have hhandles : collectSet ((normalizeSelection document selection).handles.filter
      document.endpointExists) = (normalizeSelection document selection).handles := by
    rw [normalizeSelection_eq]
    have hvalid : ∀ endpoint ∈ collectSet (selection.handles.filter document.endpointExists),
        document.endpointExists endpoint = true := by
      intro endpoint hmem
      exact (mem_filter.mp (mem_collectSet.mp hmem)).2
    rw [filter_eq_self.mpr hvalid, collectSet_of_nodup (nodup_collectSet _)]
  rw [normalizeSelection_eq document (normalizeSelection document selection), hrecords, hnodes,
    hedges, hshapes, hhandles]

theorem mem_foldl_includeEdge (canInclude : CanvasRecordId → Bool) (edges : List CanvasEdge)
    (records : List CanvasRecordId) :
    id ∈ edges.foldl (fun records edge =>
        if canInclude (.edge edge.id) then insertOnce records (.edge edge.id) else records)
      records ↔
      id ∈ records ∨ ∃ edge ∈ edges, canInclude (.edge edge.id) = true ∧ id = .edge edge.id := by
  induction edges generalizing records with
  | nil => simp
  | cons edge rest ih =>
    rw [foldl_cons, ih]
    by_cases hinclude : canInclude (.edge edge.id) = true
    · simp only [hinclude, if_true, mem_insertOnce, exists_mem_cons_iff, true_and, or_assoc]
    · simp only [hinclude, exists_mem_cons_iff, false_and, false_or, if_false, Bool.false_eq_true]

theorem mem_includeInternalEdges_iff (hkeyed : document.WellKeyed) {records : List CanvasRecordId} :
    id ∈ includeInternalEdges document records document.containsRecord ↔
      id ∈ records ∨ document.EdgeJoins (· ∈ records) id := by
  rw [includeInternalEdges, mem_foldl_includeEdge]
  apply or_congr_right
  constructor
  · rintro ⟨edge, hmem, -, rfl⟩
    obtain ⟨hvalue, hjoins⟩ := mem_filter.mp hmem
    rw [joinsNodes_iff, mem_selectedNodeIds_iff, mem_selectedNodeIds_iff] at hjoins
    exact ⟨edge.id, edge, rfl, hkeyed.edges.get_of_mem_values hvalue, hjoins⟩
  · rintro ⟨edgeId, edge, rfl, hget, hjoins⟩
    have hid := hkeyed.edges edgeId edge hget
    refine ⟨edge, mem_filter.mpr ⟨mem_values_iff.mpr ⟨edgeId, hget⟩, ?_⟩, ?_, ?_⟩
    · rwa [joinsNodes_iff, mem_selectedNodeIds_iff, mem_selectedNodeIds_iff]
    · rw [containsRecord, containsKey_iff]
      exact ⟨edge, hid ▸ hget⟩
    · rw [hid]

/-- What the scope of a normal form with internal edges covers. -/
theorem mem_selectionRecordScope_normalize_iff (hkeyed : document.WellKeyed)
    (hrelations : document.RelationsWellFormed) :
    id ∈ selectionRecordScope document (normalizeSelection document selection)
        .structuralWithInternalEdges ↔
      document.UnderKept selection.selectedRecords id ∨
        document.EdgeJoins (document.UnderKept selection.selectedRecords) id := by
  have hexplicit : ∀ other, other ∈ collectSet (normalizeSelection document
      selection).selectedRecords ↔ document.IsKept selection.selectedRecords other := fun other =>
    mem_collectSet.trans (isKept_iff_mem_normalize hrelations)
  have hseeds : ∀ other ∈ collectSet (normalizeSelection document selection).selectedRecords,
      document.containsRecord other = true := fun other hmem =>
    ((hexplicit other).mp hmem).1.contained
  have haction : ∀ other, other ∈ collectSet ((collectSet (normalizeSelection document
      selection).selectedRecords ++ document.relations.collectDescendantRecords (collectSet
      (normalizeSelection document selection).selectedRecords) document.containsRecord).filter
      document.containsRecord) ↔ document.UnderKept selection.selectedRecords other := by
    intro other
    rw [mem_collectSet, mem_filter, mem_append, hexplicit,
      mem_collectDescendantRecords_iff hrelations hseeds]
    constructor
    · rintro ⟨hkept | ⟨seed, hseed, habove⟩, -⟩
      · exact ⟨other, hkept, Relation.ReflTransGen.refl⟩
      · exact ⟨seed, (hexplicit seed).mp hseed, habove.to_reflTransGen⟩
    · rintro ⟨kept, hkept, hreach⟩
      rcases reflTransGen_iff_eq_or_transGen.mp hreach with rfl | habove
      · exact ⟨.inl hkept, hkept.1.contained⟩
      · obtain ⟨owner, -, howns⟩ := Relation.TransGen.tail'_iff.mp habove
        exact ⟨.inr ⟨kept, (hexplicit kept).mpr hkept, habove⟩, hrelations.contains_owned howns⟩
  simp only [selectionRecordScope, resolveSelectionScope, resolveSelectionScopeWithPredicates,
    CanvasRecordScopeOptions.structuralWithInternalEdges, normalizeSelection_idem hrelations,
    if_true, mem_includeInternalEdges_iff hkeyed, haction]

/-- Every selected record below a suppressed edge is also at or below a record that is
kept, or is an edge between two such records. -/
def SuppressesOnlyCovered (document : CanvasDocument) (selected : List CanvasRecordId) : Prop :=
  ∀ id ∈ selected, document.containsRecord id = true →
    ∀ edge, document.IsSuppressed selected edge → document.Above edge id →
      document.UnderKept selected id ∨ document.EdgeJoins (document.UnderKept selected) id

/-- The scope covers every selected record exactly when no suppressed edge takes one with
it. -/
theorem covers_iff (hkeyed : document.WellKeyed) (hrelations : document.RelationsWellFormed) :
    (∀ id ∈ selection.selectedRecords, document.containsRecord id = true →
      id ∈ selectionRecordScope document (normalizeSelection document selection)
        .structuralWithInternalEdges) ↔
      document.SuppressesOnlyCovered selection.selectedRecords := by
  constructor
  · intro hcovers id hmem hcontained edge _ _
    exact (mem_selectionRecordScope_normalize_iff hkeyed hrelations).mp (hcovers id hmem hcontained)
  · intro hsuppresses id hmem hcontained
    rw [mem_selectionRecordScope_normalize_iff hkeyed hrelations]
    obtain ⟨top, htop, hreach⟩ := exists_isTop hrelations hmem hcontained
    by_cases hjoins : document.EdgeJoins (document.UnderTop selection.selectedRecords) top
    · rcases reflTransGen_iff_eq_or_transGen.mp hreach with rfl | habove
      · exact .inr (hjoins.mono fun _ => UnderTop.underKept)
      · exact hsuppresses id hmem hcontained top ⟨htop, hjoins⟩ habove
    · exact .inl ⟨top, ⟨htop, hjoins⟩, hreach⟩

/-- Normalization is idempotent, keeps no record below another, and loses no selected
record exactly when no suppressed edge takes one with it. -/
theorem normalize_selection_loses_nothing_iff (hvalid : document.Valid) :
    normalizeSelection document (normalizeSelection document selection) =
        normalizeSelection document selection ∧
      (∀ first ∈ (normalizeSelection document selection).selectedRecords,
        ∀ second ∈ (normalizeSelection document selection).selectedRecords,
          ¬ document.Above first second) ∧
      ((∀ id ∈ selection.selectedRecords, document.containsRecord id = true →
        id ∈ selectionRecordScope document (normalizeSelection document selection)
          .structuralWithInternalEdges) ↔
        document.SuppressesOnlyCovered selection.selectedRecords) := by
  have hrelations := ((validateIntegrity_ok_iff document).mp hvalid.integrity).2
  refine ⟨normalizeSelection_idem hrelations, ?_, covers_iff hvalid.wellKeyed hrelations⟩
  intro first hfirst second hsecond
  have hkeptFirst := ((isKept_iff_mem_normalize hrelations).mp hfirst).1
  have hkeptSecond := ((isKept_iff_mem_normalize hrelations).mp hsecond).1
  exact hkeptSecond.highest first hkeptFirst.mem hkeptFirst.contained

/-- Two nodes, an edge between them and a third node that the edge is the parent of. -/
def ownedByEdgeCalls : List BuilderCall :=
  let node (id : NodeId) := CanvasNode.new id ⟨.finite 0, .finite 0⟩ ⟨.finite 1, .finite 1⟩
  [.addNode (node "a"), .addNode (node "b"), .addNode (node "label"),
    .addEdge (CanvasEdge.new "link" ⟨"a", none⟩ ⟨"b", none⟩),
    .withRelations ⟨[⟨.node "label", .edge "link"⟩], [], []⟩]

def ownedByEdge : CanvasDocument := (CanvasDocumentBuilder.afterCalls ownedByEdgeCalls).document

theorem ownedByEdge_valid : ownedByEdge.Valid := by
  have hbuild : (afterCalls ownedByEdgeCalls).build = .ok ownedByEdge := rfl
  exact builds_valid (.inl hbuild)

/-- The edge is left to its two nodes, and the node it owns is lost with it. -/
theorem selection_loses_label : ownedByEdge.Valid ∧
      .node "label" ∈ (CanvasSelection.mk ["a", "b", "label"] ["link"] [] []).selectedRecords ∧
      ownedByEdge.containsRecord (.node "label") = true ∧
      .node "label" ∉ selectionRecordScope ownedByEdge
        (normalizeSelection ownedByEdge ⟨["a", "b", "label"], ["link"], [], []⟩)
        .structuralWithInternalEdges :=
  ⟨ownedByEdge_valid, by decide, by decide, by decide⟩

theorem selection_of_ends_loses_nothing :
    normalizeSelection ownedByEdge ⟨["a", "b"], ["link"], [], []⟩ = ⟨["a", "b"], [], [], []⟩ ∧
      (∀ first ∈ (normalizeSelection ownedByEdge ⟨["a", "b"], ["link"], [], []⟩).selectedRecords,
        ∀ second ∈ (normalizeSelection ownedByEdge ⟨["a", "b"], ["link"], [], []⟩).selectedRecords,
          ¬ ownedByEdge.Above first second) ∧
      ownedByEdge.SuppressesOnlyCovered
        (CanvasSelection.mk ["a", "b"] ["link"] [] []).selectedRecords :=
  have h := normalize_selection_loses_nothing_iff ownedByEdge_valid
  ⟨by decide, h.2.1, h.2.2.mp (by decide)⟩

end CanvasDocument

end OpenGpui.Canvas
