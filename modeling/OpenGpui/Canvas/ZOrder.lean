/-
Z-order commands on a selection.  The records that the selection covers, locked ones
left out, move in the paint order as the command says, the others keep their order, and
the new z indices are distinct.
-/
import OpenGpui.Canvas.HitOrder
import OpenGpui.Canvas.Layers
import OpenGpui.Canvas.RecordScope
import OpenGpui.Library.SelfDelimiting

namespace OpenGpui.Canvas

open List CanvasSelection CanvasZOrderCommand IndexMap Int32 SelfDelimiting Nat

namespace CanvasDocument

def isReorderableRecord (document : CanvasDocument) : CanvasRecordId → Bool
  | .node id => (document.nodes.get id).any (!·.locked)
  | .edge id => (document.edges.get id).any (!·.locked)
  | .shape id => (document.shapes.get id).any (!·.locked)

def zOrderSelectionRecordIds (document : CanvasDocument) (selection : CanvasSelection) :
    List CanvasRecordId :=
  (resolveSelectionScopeWithPredicates document selection .structuralWithInternalEdges
    document.containsRecord document.isReorderableRecord).actionRecords

/-- The layer record of a record that comes at an ordinal. -/
def layerRecord (selectionRecords : List CanvasRecordId)
    (entry : (CanvasRecordId × Int32) × Nat) : CanvasLayerRecord :=
  { id := entry.1.1
    zIndex := entry.1.2
    ordinal := entry.2
    selected := decide (entry.1.1 ∈ selectionRecords) }

def zOrderRecords (document : CanvasDocument) (selectionRecords : List CanvasRecordId) :
    List CanvasLayerRecord :=
  sortLayerRecords (document.layers.zipIdx.map (layerRecord selectionRecords))

def reorderSelectionTransaction (document : CanvasDocument) (selection : CanvasSelection)
    (command : CanvasZOrderCommand) : CanvasTransaction :=
  let selectionRecords := document.zOrderSelectionRecordIds selection
  let records := document.zOrderRecords selectionRecords
  .new (document.zOrderUpdateCommands (reorderLayerZIndices records command))

section Records

variable (document : CanvasDocument) (selectionRecords : List CanvasRecordId)

/-- The layers with their ordinals, in the order in which the records are sorted. -/
def indexedLayers : List ((CanvasRecordId × Int32) × Nat) :=
  document.layers.zipIdx.mergeSort (zipIdxLE (zIndexLe Prod.snd))

theorem indexedLayers_map : document.indexedLayers.map Prod.fst = document.paintLayers :=
  mergeSort_zipIdx

theorem zOrderRecords_eq : document.zOrderRecords selectionRecords =
    document.indexedLayers.map (layerRecord selectionRecords) := by
  refine (map_mergeSort fun first _ second _ => ?_).symm
  rw [zipIdxLE, layerRecordLe, layerRecord, layerRecord, zIndexLe, zIndexLe]
  simp only [le_iff_toInt_le, lt_iff_toInt_lt]
  rcases lt_trichotomy first.1.2.toInt second.1.2.toInt with hlt | heq | hgt
  · simp [hlt, hlt.le, not_le.mpr hlt]
  · simp [toInt_inj.mp heq]
  · have hne : first.1.2 ≠ second.1.2 := fun heq => hgt.ne (congrArg _ heq.symm)
    simp [not_le.mpr hgt, hgt.not_gt, hne]

variable (command : CanvasZOrderCommand)

/-- The reordered records are those of the reordered layers. -/
theorem reorderLayerRecords_eq :
    reorderLayerRecords (document.zOrderRecords selectionRecords) command =
      (command.reorder (fun entry => decide (entry.1.1 ∈ selectionRecords))
        document.indexedLayers).map (layerRecord selectionRecords) := by
  rw [reorderLayerRecords, zOrderRecords_eq, reorder_map]
  rfl

theorem zOrderRecords_ids : (document.zOrderRecords selectionRecords).map (·.id) =
    document.paintOrder := by
  rw [zOrderRecords_eq, map_map, paintOrder, ← indexedLayers_map, map_map]
  rfl

theorem reorderLayerRecords_ids :
    (reorderLayerRecords (document.zOrderRecords selectionRecords) command).map (·.id) =
      command.reorder (fun id => decide (id ∈ selectionRecords)) document.paintOrder := by
  rw [reorderLayerRecords_eq, paintOrder, ← indexedLayers_map, map_map,
    reorder_map, reorder_map, map_map]
  rfl

/-- The reordered records have the layers of the document. -/
theorem reorderLayerRecords_layers :
    ((reorderLayerRecords (document.zOrderRecords selectionRecords) command).map
      fun record => (record.id, record.zIndex)).Perm document.layers := by
  rw [reorderLayerRecords_eq, map_map]
  have hkept := (command.reorder_keepsOrders
    (fun entry : (CanvasRecordId × Int32) × Nat => decide (entry.1.1 ∈ selectionRecords))
    document.indexedLayers).perm.map Prod.fst
  rw [indexedLayers_map] at hkept
  exact hkept.trans (mergeSort_perm _ _)

end Records

section Ids

variable {document : CanvasDocument}

theorem layersOf_ids {ν : Type} {records : IndexMap String ν} {name : ν → String}
    (hnamed : records.NamedBy name) (tag : String → CanvasRecordId) (zIndexOf : ν → Int32) :
    (layersOf records (fun record => tag (name record)) zIndexOf).map Prod.fst =
      records.keys.map tag := by
  rw [layersOf, values, IndexMap.keys, map_map, map_map, map_map]
  refine map_congr_left fun entry hmem => ?_
  exact congrArg tag (hnamed entry.1 entry.2 (get_eq_some_iff.mpr hmem))

variable (hkeyed : document.WellKeyed)

include hkeyed

theorem layers_ids : document.layers.map Prod.fst =
    document.nodes.keys.map .node ++ document.shapes.keys.map .shape ++
      document.edges.keys.map .edge := by
  rw [layers, map_append, map_append, layersOf_ids hkeyed.nodes,
    layersOf_ids hkeyed.shapes, layersOf_ids hkeyed.edges]

theorem layers_nodup : (document.layers.map Prod.fst).Nodup := by
  rw [layers_ids hkeyed, nodup_append, nodup_append]
  refine ⟨⟨document.nodes.nodup.map (fun _ _ => CanvasRecordId.node.inj),
    document.shapes.nodup.map (fun _ _ => CanvasRecordId.shape.inj), ?_⟩,
    document.edges.nodup.map (fun _ _ => CanvasRecordId.edge.inj), ?_⟩
  · simp
  · rintro id hid other hother rfl
    obtain ⟨_, _, rfl⟩ := mem_map.mp hother
    simp at hid

theorem containsRecord_of_mem_layers {id : CanvasRecordId}
    (hmem : id ∈ document.layers.map Prod.fst) : document.containsRecord id = true := by
  rw [layers_ids hkeyed] at hmem
  cases id <;> simpa [containsRecord, mem_keys_iff] using hmem

end Ids

/-- The layers of some records that are numbered in their order. -/
def numberedLayers (records : List CanvasLayerRecord) : List (CanvasRecordId × Int32) :=
  records.zipIdx.map fun entry =>
    (entry.1.id, normalizedLayerZIndex (layerBase records) entry.2)

/-- The document after the updates that number some records. -/
def renumbered (document : CanvasDocument) (records : List CanvasLayerRecord) : CanvasDocument :=
  document.withZIndices fun id => IndexMap.lookup id (layerZIndexUpdates records)

section Renumbered

variable {document : CanvasDocument} {records : List CanvasLayerRecord}

theorem map_zipIdx_fst {α : Type} (f : CanvasLayerRecord → α) :
    (records.zipIdx.map fun entry => f entry.1) = records.map f := by
  conv_rhs => rw [← zipIdx_map_fst 0 records]
  rw [map_map]
  rfl

theorem numberedLayers_ids (records : List CanvasLayerRecord) :
    (numberedLayers records).map Prod.fst = records.map (·.id) := by
  rw [numberedLayers, map_map, ← map_zipIdx_fst]
  rfl

/-- Up to 2^31 records, the numbers ascend. -/
theorem numberedLayers_ascend (hcount : records.length ≤ 2147483648) :
    (numberedLayers records).Pairwise fun below above => below.2 < above.2 := by
  rw [numberedLayers, pairwise_map]
  have hindices : records.zipIdx.Pairwise fun below above => below.2 < above.2 := by
    have hrange := pairwise_lt_range' (s := 0) (n := records.length)
    rwa [← zipIdx_map_snd 0 records, pairwise_map] at hrange
  refine hindices.imp_of_mem fun {below above} hbelow habove hlt => ?_
  have hleft := (mem_zipIdx hbelow).2.1
  have hright := (mem_zipIdx habove).2.1
  rw [zero_add] at hleft hright
  rw [lt_iff_toInt_lt, layerBase, normalizedLayerZIndex_toInt _ hleft hcount,
    normalizedLayerZIndex_toInt _ hright hcount]
  omega

/-- Every record has its number, whatever the order in which the document stores them. -/
theorem layers_renumbered (hids : (records.map (·.id)).Nodup)
    (hlayers : (records.map fun record => (record.id, record.zIndex)).Perm document.layers) :
    (numberedLayers records).Perm (document.renumbered records).layers := by
  rw [← map_zipIdx_fst] at hids
  have hnumbered : numberedLayers records = (records.map fun record =>
      (record.id, record.zIndex)).map fun layer =>
        (layer.1, (IndexMap.lookup layer.1 (layerZIndexUpdates records)).getD layer.2) := by
    rw [← map_zipIdx_fst, map_map]
    exact map_congr_left fun entry hmem =>
      Prod.ext rfl (lookup_layerUpdates hids hmem).symm
  rw [renumbered, layers_withZIndices, hnumbered]
  exact hlayers.map _

theorem paintLayers_renumbered (hids : (records.map (·.id)).Nodup)
    (hlayers : (records.map fun record => (record.id, record.zIndex)).Perm document.layers)
    (hcount : records.length ≤ 2147483648) :
    (document.renumbered records).paintLayers = numberedLayers records :=
  mergeSort_of_perm Prod.snd (layers_renumbered hids hlayers) (numberedLayers_ascend hcount)

end Renumbered

/-- Whether an action on the selection covers the record. -/
def isSelected (document : CanvasDocument) (selection : CanvasSelection) (id : CanvasRecordId) :
    Bool :=
  decide (id ∈ document.zOrderSelectionRecordIds selection)

/-- What a z-order command does with the selected records of a document. -/
structure ReordersSelection (document : CanvasDocument) (selection : CanvasSelection)
    (command : CanvasZOrderCommand) (after : CanvasDocument) : Prop where
  applied : document.applyAll
    (document.reorderSelectionTransaction selection command).commands = .ok after
  committed : ∃ committed, CanvasMutationJournal.commit document
    (document.reorderSelectionTransaction selection command) = (.ok committed, after)
  onlyZIndices : ∃ zIndices, after = document.withZIndices zIndices
  keepsOrders : Lifting.KeepsOrders (document.isSelected selection) document.paintOrder
    after.paintOrder
  moves : command.Moves (document.isSelected selection) document.paintOrder after.paintOrder
  empty_iff : (document.reorderSelectionTransaction selection command).commands = [] ↔
    after.paintOrder = document.paintOrder
  settled_iff : (document.reorderSelectionTransaction selection command).commands = [] ↔
    command.Settled (document.isSelected selection) document.paintOrder
  ascends : (document.reorderSelectionTransaction selection command).commands ≠ [] →
    after.paintLayers.Pairwise fun below above => below.2 < above.2
  hits : ∀ facts : CanvasGeometryFacts, facts.document = after →
    (SpatialIndex.rebuildWithFacts facts).recordOrder = after.paintOrder.filter facts.isBounded

variable {document : CanvasDocument}

theorem zOrderUpdateCommands_eq_nil_iff {updates : List (CanvasRecordId × Int32)}
    (hstored : ∀ update ∈ updates, document.containsRecord update.1 = true) :
    document.zOrderUpdateCommands updates = [] ↔ updates = [] := by
  constructor
  · intro hnone
    cases updates with
    | nil => rfl
    | cons update rest =>
      obtain ⟨command, hcommand, _⟩ :=
        exists_zOrderUpdateCommand update.2 (hstored update mem_cons_self)
      rw [zOrderUpdateCommands, filterMap_eq_nil_iff] at hnone
      rw [hnone update mem_cons_self] at hcommand
      cases hcommand
  · rintro rfl
    rfl

theorem reordered_ids_perm (document : CanvasDocument) (selectionRecords : List CanvasRecordId)
    (command : CanvasZOrderCommand) :
    ((reorderLayerRecords (document.zOrderRecords selectionRecords) command).map (·.id)).Perm
      (document.layers.map Prod.fst) := by
  have hperm := (document.reorderLayerRecords_layers selectionRecords command).map Prod.fst
  rwa [map_map] at hperm

/-- The updates of a command name stored records, each of them once. -/
theorem zOrderUpdates_named (hkeyed : document.WellKeyed) (selectionRecords : List CanvasRecordId)
    (command : CanvasZOrderCommand) :
    ((reorderLayerZIndices (document.zOrderRecords selectionRecords) command).map Prod.fst).Nodup ∧
      ∀ update ∈ reorderLayerZIndices (document.zOrderRecords selectionRecords) command,
        document.containsRecord update.1 = true := by
  have hids := document.reordered_ids_perm selectionRecords command
  rcases reorderLayerZIndices_cases (document.zOrderRecords selectionRecords) command with
    ⟨_, hnone⟩ | ⟨_, hupdates⟩
  · rw [hnone]
    exact ⟨nodup_nil, by simp⟩
  · have hsub : ((reorderLayerZIndices (document.zOrderRecords selectionRecords) command).map
        Prod.fst).Sublist
        ((reorderLayerRecords (document.zOrderRecords selectionRecords) command).map (·.id)) := by
      rw [hupdates, ← map_zipIdx_fst]
      exact layerUpdates_sublist _ _
    refine ⟨(hids.nodup_iff.mpr (layers_nodup hkeyed)).sublist hsub, ?_⟩
    intro update hmem
    exact containsRecord_of_mem_layers hkeyed (hids.mem_iff.mp (hsub.subset (mem_map_of_mem hmem)))

/-- Running the commands of a z-order command, on a document of any size. -/
theorem zOrderUpdates_apply (hvalid : document.Valid) (selection : CanvasSelection)
    (command : CanvasZOrderCommand) :
    let updates := reorderLayerZIndices
      (document.zOrderRecords (document.zOrderSelectionRecordIds selection)) command
    let transaction := document.reorderSelectionTransaction selection command
    document.applyAll transaction.commands =
        .ok (document.withZIndices fun id => IndexMap.lookup id updates) ∧
      document.ReversibleAlong transaction.commands ∧
      (transaction.commands = [] ↔ updates = []) := by
  intro updates transaction
  obtain ⟨hnodup, hstored⟩ := zOrderUpdates_named hvalid.wellKeyed
    (document.zOrderSelectionRecordIds selection) command
  have hrun := applyAll_zOrderUpdates (fun _ => none) hvalid hnodup hstored
  rw [withZIndices_none] at hrun
  simp only [Option.or_none] at hrun
  exact ⟨hrun.1, hrun.2, zOrderUpdateCommands_eq_nil_iff hstored⟩

/-- The paint order after the updates of a command, up to 2^31 records. -/
theorem zOrderUpdates_paintOrder (hkeyed : document.WellKeyed)
    (hcount : document.layers.length ≤ 2 ^ 31) (selectionRecords : List CanvasRecordId)
    (command : CanvasZOrderCommand) :
    let updates := reorderLayerZIndices (document.zOrderRecords selectionRecords) command
    let after := document.withZIndices fun id => IndexMap.lookup id updates
    let order := command.reorder (fun id => decide (id ∈ selectionRecords)) document.paintOrder
    after.paintOrder = order ∧ (updates = [] ↔ order = document.paintOrder) ∧
      (updates ≠ [] → after.paintLayers.Pairwise fun below above => below.2 < above.2) := by
  intro updates after order
  have hids : _ = order := document.reorderLayerRecords_ids selectionRecords command
  have hold := document.zOrderRecords_ids selectionRecords
  have hlayers := document.reorderLayerRecords_layers selectionRecords command
  have hperm := document.reordered_ids_perm selectionRecords command
  have hnone : updates = [] → after = document := fun hnone =>
    (congrArg (fun updates => document.withZIndices fun id => IndexMap.lookup id updates)
      hnone).trans document.withZIndices_none
  rcases reorderLayerZIndices_cases (document.zOrderRecords selectionRecords) command with
    ⟨hsame, hupdates⟩ | ⟨hother, hupdates⟩
  · rw [hids, hold] at hsame
    refine ⟨?_, iff_of_true hupdates hsame, fun hsome => absurd hupdates hsome⟩
    rw [hnone hupdates, hsame]
  · rw [hids, hold] at hother
    have hlength := hlayers.length_eq
    rw [length_map] at hlength
    have hafter : after = document.renumbered
        (reorderLayerRecords (document.zOrderRecords selectionRecords) command) :=
      congrArg (fun updates => document.withZIndices fun id => IndexMap.lookup id updates) hupdates
    have hpaint : after.paintLayers = numberedLayers
        (reorderLayerRecords (document.zOrderRecords selectionRecords) command) := by
      rw [hafter]
      exact paintLayers_renumbered (hperm.nodup_iff.mpr (layers_nodup hkeyed)) hlayers (by omega)
    have horder : after.paintOrder = order := by
      rw [paintOrder, hpaint, numberedLayers_ids, hids]
    refine ⟨horder, iff_of_false ?_ hother, fun _ => ?_⟩
    · intro hempty
      exact hother (horder.symm.trans (congrArg paintOrder (hnone hempty)))
    · rw [hpaint]
      exact numberedLayers_ascend (by omega)

/-- A z-order command on a selection.  Up to 2^31 records, its transaction applies; it
keeps the order of the selected records and that of the others, moves the selected ones
as the command says, and is empty exactly when they already stand there. -/
theorem reorderSelectionTransaction_reorders (hvalid : document.Valid)
    (hcount : document.layers.length ≤ 2 ^ 31) (selection : CanvasSelection)
    (command : CanvasZOrderCommand) :
    ∃ after, document.ReordersSelection selection command after := by
  obtain ⟨happly, hreversible, hempty⟩ := zOrderUpdates_apply hvalid selection command
  obtain ⟨horder, hsame, hascends⟩ := zOrderUpdates_paintOrder hvalid.wellKeyed hcount
    (document.zOrderSelectionRecordIds selection) command
  have hafter := hvalid.withZIndices fun id => IndexMap.lookup id (reorderLayerZIndices
    (document.zOrderRecords (document.zOrderSelectionRecordIds selection)) command)
  refine ⟨_, happly, CanvasMutationJournal.commit_of_applies hvalid happly hafter hreversible,
    ⟨_, rfl⟩, ?_, ?_, ?_, ?_, ?_, ?_⟩
  · rw [horder]
    exact command.reorder_keepsOrders _ _
  · rw [horder]
    exact command.reorder_moves _ _
  · rw [horder, hempty, hsame]
  · rw [hempty, hsame]
    exact command.reorder_eq_self_iff _ _
  · intro hsome
    exact hascends fun hnone => hsome (hempty.mpr hnone)
  · rintro facts hfacts
    rw [SpatialIndex.recordOrder_rebuild (hfacts ▸ hafter.wellKeyed), hfacts]

end CanvasDocument

open CanvasDocument

/-! More shapes than z indices. -/

namespace Crowd

theorem repr_injective : Function.Injective Nat.repr := by
  intro first second heq
  have hdigits := congrArg (fun text => numeralValue 10 text.toList) heq
  have hvalue := @numeralValue_toDigits 10 (by omega) (by omega)
  simpa only [toList_repr, hvalue] using hdigits

variable (index : Nat)

def shape : CanvasShape :=
  CanvasShape.new index.repr ⟨⟨.finite 0, .finite 0⟩, ⟨.finite 10, .finite 10⟩⟩

/-- Shapes with the same z index, each under its number. -/
def document (count : Nat) : CanvasDocument :=
  { CanvasDocument.default with
    shapes :=
      { entries := (range count).map fun index => (index.repr, shape index)
        nodup := by
          rw [map_map]
          exact nodup_range.map repr_injective } }

/-- The first shape is selected. -/
def selection : CanvasSelection := { CanvasSelection.default with shapes := [Nat.repr 0] }

variable (count : Nat)

theorem layers_eq : (document count).layers =
    (range count).map fun index => (.shape index.repr, 0) := by
  simp [layers, layersOf, document, CanvasDocument.default, values, empty, shape,
    CanvasShape.new, Function.comp_def]

theorem document_valid : (document count).Valid := by
  refine ⟨⟨?_, ?_, ?_⟩, ?_⟩
  · intro id node hget
    cases hget
  · intro id edge hget
    cases hget
  · intro id stored hget
    obtain ⟨index, _, heq⟩ := mem_map.mp (get_eq_some_iff.mp hget)
    cases heq
    rfl
  · rw [validateIntegrity_ok_iff]
    refine ⟨⟨?_, ?_⟩, (validateRelations_ok_iff _).mp rfl⟩
    · intro id node hget
      cases hget
    · intro id edge hget
      cases hget

theorem selected_eq (hcount : 0 < count) :
    (document count).zOrderSelectionRecordIds selection = [.shape (Nat.repr 0)] := by
  have hstored : (document count).shapes.get (Nat.repr 0) = some (shape 0) := by
    rw [get_eq_some_iff]
    exact mem_map.mpr ⟨0, mem_range.mpr hcount, rfl⟩
  have hcontained : (document count).containsRecord (.shape (Nat.repr 0)) = true :=
    containsKey_iff.mpr ⟨_, hstored⟩
  have hreorderable : (document count).isReorderableRecord (.shape (Nat.repr 0)) = true := by
    rw [isReorderableRecord, hstored]
    rfl
  have hcandidates : normalizeRecordCandidates (document count) selection.selectedRecords =
      [.shape (Nat.repr 0)] := by
    have hexisting : selection.selectedRecords.filter (document count).containsRecord =
        [.shape (Nat.repr 0)] := by
      simp [selection, selectedRecords, CanvasSelection.default, hcontained]
    rw [normalizeRecordCandidates, hexisting]
    rfl
  have hnormalized : normalizeSelection (document count) selection =
      { CanvasSelection.default with shapes := [Nat.repr 0] } := by
    rw [normalizeSelection, hcandidates]
    rfl
  have hexplicit : collectSet (selectedRecords
      { CanvasSelection.default with shapes := [Nat.repr 0] }) = [.shape (Nat.repr 0)] := rfl
  have hdescendants : (document count).relations.collectDescendantRecords
      [.shape (Nat.repr 0)] (document count).containsRecord = [] := by
    rw [CanvasRecordRelations.collectDescendantRecords, filter_cons_of_pos hcontained]
    rfl
  have hactions : [CanvasRecordId.shape (Nat.repr 0)].filter
      (document count).isReorderableRecord = [.shape (Nat.repr 0)] := by
    rw [filter_cons_of_pos hreorderable, filter_nil]
  have hincluded : includeInternalEdges (document count) [.shape (Nat.repr 0)]
      (document count).isReorderableRecord = [.shape (Nat.repr 0)] := rfl
  simp only [zOrderSelectionRecordIds, resolveSelectionScopeWithPredicates, hnormalized, hexplicit,
    CanvasRecordScopeOptions.structuralWithInternalEdges, if_true, hdescendants, append_nil,
    hactions]
  exact hincluded

/-- A shape with its place. -/
def entry : (CanvasRecordId × Int32) × Nat := ((.shape index.repr, 0), index)

theorem indexedLayers_eq : (document count).indexedLayers = (range count).map entry := by
  have hzip : (document count).layers.zipIdx = (range count).map entry := by
    rw [layers_eq]
    refine ext_getElem (by simp) fun index _ _ => ?_
    simp [entry]
  rw [indexedLayers, hzip]
  refine mergeSort_of_pairwise (pairwise_map.mpr ?_)
  refine pairwise_lt_range.imp fun hlt => ?_
  simp [zipIdxLE, zIndexLe, entry, hlt.le]

def selected : CanvasRecordId → Bool := fun id => decide (id ∈ [CanvasRecordId.shape (Nat.repr 0)])

theorem selected_entry : selected (entry index).1.1 = decide (index = 0) := by
  rw [selected, entry, decide_eq_decide, mem_singleton, CanvasRecordId.shape.injEq]
  exact ⟨fun heq => repr_injective heq, fun heq => congrArg _ heq⟩

/-- The stack after the first shape is brought to the front. -/
theorem reordered_eq (last : Nat) :
    reorderLayerRecords ((document (last + 1)).zOrderRecords [.shape (Nat.repr 0)]) .bringToFront =
      ((range last).map fun index =>
        layerRecord [.shape (Nat.repr 0)] (entry (index + 1))) ++
        [layerRecord [.shape (Nat.repr 0)] (entry 0)] := by
  have hrest : ((range last).map fun index => entry (index + 1)).filter
      (fun other => selected other.1.1) = [] := by
    rw [filter_eq_nil_iff]
    intro other hmem
    obtain ⟨index, _, rfl⟩ := mem_map.mp hmem
    simp [selected_entry]
  have hkept : ((range last).map fun index => entry (index + 1)).filter
      (fun other => !selected other.1.1) =
        (range last).map fun index => entry (index + 1) := by
    rw [filter_eq_self]
    intro other hmem
    obtain ⟨index, _, rfl⟩ := mem_map.mp hmem
    simp [selected_entry]
  have hentries : (range (last + 1)).map entry =
      entry 0 :: (range last).map fun index => entry (index + 1) := by
    rw [range_succ_eq_map, map_cons, map_map]
    rfl
  rw [reorderLayerRecords_eq, indexedLayers_eq, hentries]
  change (Lifting.toEnd (fun other : (CanvasRecordId × Int32) × Nat => selected other.1.1) _).map
    _ = _
  rw [Lifting.toEnd, filter_cons_of_neg (by simp [selected_entry]),
    filter_cons_of_pos (by simp [selected_entry]), hkept, hrest, map_append, map_map]
  rfl

variable {last : Nat}

/-- The base of the numbers, and the number of every place from 2^31 - 1 on. -/
theorem number_eq {index : Nat} (hlast : 2 ^ 31 ≤ last) (hindex : 2 ^ 31 ≤ index + 1) :
    normalizedLayerZIndex (layerBase (reorderLayerRecords
      ((document (last + 1)).zOrderRecords [.shape (Nat.repr 0)]) .bringToFront)) index =
      maxValue := by
  have hleast : ((reorderLayerRecords ((document (last + 1)).zOrderRecords
      [.shape (Nat.repr 0)]) .bringToFront).map (·.zIndex)).min?.getD 0 = 0 := by
    have hzero : (reorderLayerRecords ((document (last + 1)).zOrderRecords
        [.shape (Nat.repr 0)]) .bringToFront).map (·.zIndex) = replicate (last + 1) 0 := by
      rw [reordered_eq, eq_replicate_iff]
      refine ⟨by simp, ?_⟩
      intro zIndex hmem
      rw [map_append, map_map, mem_append] at hmem
      rcases hmem with hfront | hback
      · obtain ⟨_, _, rfl⟩ := mem_map.mp hfront
        rfl
      · exact mem_singleton.mp hback
    rw [hzero, min?_replicate_of_pos (by omega)]
    rfl
  have hlength : (reorderLayerRecords ((document (last + 1)).zOrderRecords
      [.shape (Nat.repr 0)]) .bringToFront).length = last + 1 := by
    simp [reordered_eq]
  have hgreatest : maxValue.toInt = 2147483647 := by decide
  have hzero : (0 : Int32).toInt = 0 := by decide
  have hbase : normalizedLayerZOrderBase 0 (last + 1) = 0 := by
    refine if_neg ?_
    rw [lt_iff_toInt_lt, saturatingSub, toInt_ofIntClamp, toInt_cappedOffset]
    omega
  rw [layerBase, hleast, hlength, hbase, ← toInt_inj, normalizedLayerZIndex, saturatingAdd,
    toInt_ofIntClamp, toInt_cappedOffset]
  omega

/-- The selected shape is not in front where the last one comes after it. -/
theorem not_atEnd (hlast : 0 < last) {order : List CanvasRecordId}
    (hpair : [.shape (Nat.repr 0), .shape (Nat.repr last)].Sublist order) :
    ¬Lifting.AtEnd selected order := by
  intro hend
  have hselected := pairwise_pair.mp (List.Pairwise.sublist hpair hend)
  have hfirst := selected_entry 0
  have hother := selected_entry last
  rw [entry] at hfirst hother
  rw [hfirst, hother] at hselected
  simp at hselected
  omega

theorem pair_sublist (hlast : 0 < last) : [0, last].Sublist (range (last + 1)) := by
  rw [range_succ_eq_map]
  refine List.Sublist.cons_cons 0 (singleton_sublist.mpr ?_)
  exact mem_map.mpr ⟨last - 1, mem_range.mpr (by omega), by omega⟩

/-- The updates that bring the first shape to the front. -/
def updates (last : Nat) : List (CanvasRecordId × Int32) :=
  reorderLayerZIndices ((document (last + 1)).zOrderRecords [.shape (Nat.repr 0)]) .bringToFront

theorem updates_eq (hlast : 0 < last) : updates last = layerZIndexUpdates
    (reorderLayerRecords ((document (last + 1)).zOrderRecords [.shape (Nat.repr 0)])
      .bringToFront) := by
  rcases reorderLayerZIndices_cases
    ((document (last + 1)).zOrderRecords [.shape (Nat.repr 0)]) .bringToFront with
    ⟨hsame, _⟩ | ⟨_, hupdates⟩
  · rw [reorderLayerRecords_ids, zOrderRecords_ids] at hsame
    have hend := (Lifting.toEnd_eq_self_iff selected (document (last + 1)).paintOrder).mp hsame
    have hpair := ((pair_sublist hlast).map entry).map fun other => other.1.1
    rw [← indexedLayers_eq] at hpair
    have horder : (document (last + 1)).indexedLayers.map (fun other => other.1.1) =
        (document (last + 1)).paintOrder := by
      rw [paintOrder, ← indexedLayers_map, map_map]
      rfl
    rw [horder] at hpair
    exact absurd hend (not_atEnd hlast hpair)
  · exact hupdates

/-- The numbers of the first shape and of the last one collide. -/
theorem lookup_updates {index place : Nat} (hlast : 2 ^ 31 ≤ last) (hplace : 2 ^ 31 ≤ place + 1)
    (hget : (((range last).map fun index =>
        layerRecord [.shape (Nat.repr 0)] (entry (index + 1))) ++
        [layerRecord [.shape (Nat.repr 0)] (entry 0)])[place]? =
      some (layerRecord [.shape (Nat.repr 0)] (entry index))) :
    (IndexMap.lookup (.shape index.repr) (updates last)).getD 0 = maxValue := by
  have hids := (document (last + 1)).reordered_ids_perm [.shape (Nat.repr 0)] .bringToFront
  have hnodup := hids.nodup_iff.mpr (layers_nodup (document_valid (last + 1)).wellKeyed)
  rw [← map_zipIdx_fst] at hnodup
  rw [← reordered_eq, ← mk_mem_zipIdx_iff_getElem?] at hget
  rw [updates_eq (by omega), ← number_eq hlast hplace]
  exact lookup_layerUpdates hnodup hget

theorem lookup_first (hlast : 2 ^ 31 ≤ last) :
    (IndexMap.lookup (.shape (Nat.repr 0)) (updates last)).getD 0 = maxValue := by
  refine @lookup_updates last 0 last hlast (by omega) ?_
  simp

theorem first_before_last (hlast : 2 ^ 31 ≤ last) :
    [CanvasRecordId.shape (Nat.repr 0), .shape (Nat.repr last)].Sublist
      ((document (last + 1)).withZIndices fun id =>
        IndexMap.lookup id (updates last)).paintOrder := by
  have hfirst := lookup_first hlast
  have hother : (IndexMap.lookup (.shape last.repr) (updates last)).getD 0 = maxValue := by
    refine @lookup_updates last last (last - 1) hlast (by omega) ?_
    have hplace : last - 1 < last := by omega
    rw [getElem?_append_left (by simpa using hplace), getElem?_map,
      getElem?_range hplace, Option.map_some, Nat.sub_add_cancel (by omega)]
  have hpair := ((pair_sublist (by omega : 0 < last)).map
    fun index => (CanvasRecordId.shape index.repr, (0 : Int32))).map fun layer =>
      (layer.1, (IndexMap.lookup layer.1 (updates last)).getD layer.2)
  rw [← layers_eq, ← layers_withZIndices (document (last + 1))
    fun id => IndexMap.lookup id (updates last)] at hpair
  have hsorted := pair_sublist_mergeSort (zIndexLe_trans Prod.snd) (zIndexLe_total Prod.snd)
    (by simp [zIndexLe, hfirst, hother]) hpair
  exact hsorted.map Prod.fst

end Crowd

theorem pair_reordered :
    ∃ after, (Crowd.document 2).ReordersSelection Crowd.selection .bringToFront after :=
  reorderSelectionTransaction_reorders (Crowd.document_valid 2)
    (by rw [Crowd.layers_eq, length_map, length_range]; omega) Crowd.selection
    .bringToFront

/-- With 2^31 + 1 shapes the two uppermost numbers collide, and the shape that was
brought to the front is painted before another one. -/
theorem crowd_not_reordered : (Crowd.document (2 ^ 31 + 1)).Valid ∧
      ((Crowd.document (2 ^ 31 + 1)).reorderSelectionTransaction Crowd.selection
        .bringToFront).commands ≠ [] ∧
      ∃ after, (Crowd.document (2 ^ 31 + 1)).applyAll
          ((Crowd.document (2 ^ 31 + 1)).reorderSelectionTransaction Crowd.selection
            .bringToFront).commands = .ok after ∧
        ¬bringToFront.Moves ((Crowd.document (2 ^ 31 + 1)).isSelected Crowd.selection)
          (Crowd.document (2 ^ 31 + 1)).paintOrder after.paintOrder := by
  have hvalid := Crowd.document_valid (2 ^ 31 + 1)
  obtain ⟨happly, _, hempty⟩ := zOrderUpdates_apply hvalid Crowd.selection .bringToFront
  rw [Crowd.selected_eq _ (by omega)] at happly hempty
  refine ⟨hvalid, ?_, _, happly, ?_⟩
  · intro hnone
    have hfirst := Crowd.lookup_first (le_refl (2 ^ 31))
    rw [Crowd.updates, hempty.mp hnone] at hfirst
    exact absurd hfirst (by decide)
  · have hselected : (Crowd.document (2 ^ 31 + 1)).isSelected Crowd.selection = Crowd.selected := by
      funext id
      rw [isSelected, Crowd.selected_eq _ (by omega), Crowd.selected]
    rw [hselected]
    exact Crowd.not_atEnd (by omega) (Crowd.first_before_last (le_refl (2 ^ 31)))

end OpenGpui.Canvas
