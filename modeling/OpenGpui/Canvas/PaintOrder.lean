/-
The order in which canvas records are painted and hit, from the lowest one up: by z
index and, for equal ones, nodes before shapes before edges, each in document order.
The spatial index lists its records in that order.  Writing z indices leaves everything
else about a document as it is.
-/
import OpenGpui.Canvas.Undo
import OpenGpui.Library.Comparisons

namespace OpenGpui.Canvas

open IndexMap Int32 List Option CanvasDocument

/-- The order of z indices that both stacks of records are sorted by. -/
def zIndexLe {α : Type} (zIndex : α → Int32) (below above : α) : Bool :=
  decide (zIndex below ≤ zIndex above)

section ZIndexLe

variable {α : Type} (zIndex : α → Int32)

theorem zIndexLe_trans (first second third : α) (hfirst : zIndexLe zIndex first second = true)
    (hsecond : zIndexLe zIndex second third = true) : zIndexLe zIndex first third = true := by
  rw [zIndexLe, decide_eq_true_iff, le_iff_toInt_le] at *
  omega

theorem zIndexLe_total (first second : α) :
    (zIndexLe zIndex first second || zIndexLe zIndex second first) = true := by
  rw [zIndexLe, zIndexLe, Bool.or_eq_true, decide_eq_true_iff, decide_eq_true_iff,
    le_iff_toInt_le, le_iff_toInt_le]
  omega

/-- A list with ascending z indices is the sort of every list with the same values. -/
theorem mergeSort_of_perm {values sorted : List α} (hperm : sorted.Perm values)
    (hsorted : sorted.Pairwise fun below above => zIndex below < zIndex above) :
    values.mergeSort (zIndexLe zIndex) = sorted := by
  have hpairs := pairwise_mergeSort (zIndexLe_trans zIndex) (zIndexLe_total zIndex) values
  have hdistinct : (sorted.map zIndex).Nodup := by
    refine pairwise_map.mpr (hsorted.imp fun hlt heq => ?_)
    rw [heq, lt_iff_toInt_lt] at hlt
    exact absurd hlt (lt_irrefl _)
  refine ((mergeSort_perm values _).trans hperm.symm).eq_of_pairwise ?_ hpairs
    (hsorted.imp fun hlt => ?_)
  · intro first second hfirst hsecond hle hge
    have hstored : first ∈ sorted := hperm.mem_iff.mpr (mem_mergeSort.mp hfirst)
    refine inj_on_of_nodup_map hdistinct hstored hsecond (toInt_inj.mp ?_)
    rw [zIndexLe, decide_eq_true_iff, le_iff_toInt_le] at hle hge
    omega
  · rw [zIndexLe, decide_eq_true_iff, le_iff_toInt_le]
    rw [lt_iff_toInt_lt] at hlt
    omega

end ZIndexLe

namespace CanvasDocument

/-- The records of one kind and their z indices. -/
def layersOf {ν : Type} (records : IndexMap String ν) (place : ν → CanvasRecordId)
    (zIndexOf : ν → Int32) : List (CanvasRecordId × Int32) :=
  records.values.map fun record => (place record, zIndexOf record)

/-- The records of a document and their z indices: nodes, shapes, edges. -/
def layers (document : CanvasDocument) : List (CanvasRecordId × Int32) :=
  layersOf document.nodes (fun node => .node node.id) (·.zIndex) ++
    layersOf document.shapes (fun shape => .shape shape.id) (·.zIndex) ++
    layersOf document.edges (fun edge => .edge edge.id) (·.zIndex)

def paintLayers (document : CanvasDocument) : List (CanvasRecordId × Int32) :=
  document.layers.mergeSort (zIndexLe Prod.snd)

/-- The records from the lowest one up. -/
def paintOrder (document : CanvasDocument) : List CanvasRecordId :=
  document.paintLayers.map Prod.fst

/-- The records of one kind with other z indices for some of them. -/
def restack {ν : Type} (records : IndexMap String ν) (place : ν → CanvasRecordId)
    (zIndexOf : ν → Int32) (write : ν → Int32 → ν) (zIndices : CanvasRecordId → Option Int32) :
    IndexMap String ν :=
  records.mapValues fun record => write record ((zIndices (place record)).getD (zIndexOf record))

/-- The document with other z indices for some of its records. -/
def withZIndices (document : CanvasDocument) (zIndices : CanvasRecordId → Option Int32) :
    CanvasDocument :=
  { document with
    nodes := restack document.nodes (fun node => .node node.id) (·.zIndex)
      (fun node zIndex => { node with zIndex }) zIndices
    edges := restack document.edges (fun edge => .edge edge.id) (·.zIndex)
      (fun edge zIndex => { edge with zIndex }) zIndices
    shapes := restack document.shapes (fun shape => .shape shape.id) (·.zIndex)
      (fun shape zIndex => { shape with zIndex }) zIndices }

/-- One more z index for the record of an id. -/
def withZIndex (zIndices : CanvasRecordId → Option Int32) (id : CanvasRecordId)
    (zIndex : Int32) : CanvasRecordId → Option Int32 :=
  fun other => if other = id then some zIndex else zIndices other

section Restack

variable {ν : Type} {records : IndexMap String ν} {place : ν → CanvasRecordId}
  {zIndexOf : ν → Int32} {write : ν → Int32 → ν} (zIndices : CanvasRecordId → Option Int32)
  {target : CanvasRecordId} (zIndex : Int32)

@[simp] theorem get_restack (id : String) :
    (restack records place zIndexOf write zIndices).get id = (records.get id).map fun record =>
      write record ((zIndices (place record)).getD (zIndexOf record)) :=
  get_mapValues _ _ _

/-- Writing the z index of the record of an id. -/
theorem insert_restack {name : ν → String} {tag : String → CanvasRecordId}
    (hnamed : records.NamedBy name) (htag : Function.Injective tag) {id : String} {record : ν}
    (hget : records.get id = some record) :
    (restack records (fun record => tag (name record)) zIndexOf write zIndices).insert id
        (write record zIndex) =
      restack records (fun record => tag (name record)) zIndexOf write
        (withZIndex zIndices (tag id) zIndex) := by
  have hnew : write record zIndex = write record
      ((withZIndex zIndices (tag id) zIndex (tag (name record))).getD (zIndexOf record)) := by
    rw [withZIndex, hnamed id record hget, if_pos rfl, getD_some]
  rw [hnew]
  refine @insert_mapValues _ _ _ _ _ (fun record => write record
    ((withZIndex zIndices (tag id) zIndex (tag (name record))).getD (zIndexOf record)))
    _ _ hget fun other value hother hne => ?_
  have hplace : tag other ≠ tag id := fun heq => hne (htag heq)
  simp only [withZIndex, hnamed other value hother, if_neg hplace]

/-- Records of another kind do not see the target's z index. -/
theorem restack_withZIndex_of_ne (hne : ∀ record, place record ≠ target) :
    restack records place zIndexOf write (withZIndex zIndices target zIndex) =
      restack records place zIndexOf write zIndices := by
  rw [restack]
  congr 1
  funext record
  rw [withZIndex, if_neg (hne record)]

theorem restack_none (hwrite : ∀ record, write record (zIndexOf record) = record) :
    restack records place zIndexOf write (fun _ => none) = records := by
  apply ext_entries
  rw [restack, mapValues]
  simp [hwrite]

theorem layersOf_restack (hplace : ∀ record zIndex, place (write record zIndex) = place record)
    (hwrite : ∀ record zIndex, zIndexOf (write record zIndex) = zIndex) :
    layersOf (restack records place zIndexOf write zIndices) place zIndexOf =
      (layersOf records place zIndexOf).map fun layer =>
        (layer.1, (zIndices layer.1).getD layer.2) := by
  simp [layersOf, restack, IndexMap.values, mapValues, hplace, hwrite]

end Restack

def zOrderUpdateCommand (document : CanvasDocument) (recordId : CanvasRecordId) (zIndex : Int32) :
    Option DocumentCommand :=
  match recordId with
  | .node id => (document.nodes.get id).map fun node => .updateNode { node with zIndex }
  | .edge id => (document.edges.get id).map fun edge => .updateEdge { edge with zIndex }
  | .shape id => (document.shapes.get id).map fun shape => .updateShape { shape with zIndex }

def zOrderUpdateCommands (document : CanvasDocument) (updates : List (CanvasRecordId × Int32)) :
    List DocumentCommand :=
  updates.filterMap fun update => document.zOrderUpdateCommand update.1 update.2

variable (document : CanvasDocument) (zIndices : CanvasRecordId → Option Int32)

theorem withZIndices_none : document.withZIndices (fun _ => none) = document := by
  rw [withZIndices, restack_none fun _ => rfl, restack_none fun _ => rfl, restack_none fun _ => rfl]

theorem layers_withZIndices : (document.withZIndices zIndices).layers =
    document.layers.map fun layer => (layer.1, (zIndices layer.1).getD layer.2) := by
  rw [layers, layers, map_append, map_append]
  simp only [withZIndices, layersOf_restack, implies_true]

theorem containsRecord_withZIndices (id : CanvasRecordId) :
    (document.withZIndices zIndices).containsRecord id = document.containsRecord id := by
  cases id with
  | node id | edge id | shape id => simp [withZIndices, containsRecord, containsKey]

theorem endpointFits_withZIndices {endpoint : CanvasEndpoint} {opposite : HandleRole}
    (hfits : document.EndpointFits endpoint opposite) :
    (document.withZIndices zIndices).EndpointFits endpoint opposite := by
  obtain ⟨node, hnode, hhandle⟩ := hfits
  refine ⟨{ node with zIndex := (zIndices (.node node.id)).getD node.zIndex }, ?_, ?_⟩
  · rw [withZIndices, get_restack, hnode]
    rfl
  · intro handleId hid
    obtain ⟨handle, hfound, hkind⟩ := hhandle handleId hid
    exact ⟨handle, hfound, hkind⟩

variable {document}

theorem Valid.withZIndices (hvalid : document.Valid) : (document.withZIndices zIndices).Valid := by
  refine ⟨⟨?_, ?_, ?_⟩, ?_⟩
  · intro id stored hget
    rw [CanvasDocument.withZIndices, get_restack, map_eq_some_iff] at hget
    obtain ⟨node, hnode, rfl⟩ := hget
    exact hvalid.wellKeyed.nodes id node hnode
  · intro id stored hget
    rw [CanvasDocument.withZIndices, get_restack, map_eq_some_iff] at hget
    obtain ⟨edge, hedge, rfl⟩ := hget
    exact hvalid.wellKeyed.edges id edge hedge
  · intro id stored hget
    rw [CanvasDocument.withZIndices, get_restack, map_eq_some_iff] at hget
    obtain ⟨shape, hshape, rfl⟩ := hget
    exact hvalid.wellKeyed.shapes id shape hshape
  · rw [validateIntegrity_ok_iff]
    refine ⟨⟨?_, ?_⟩, ?_⟩
    · intro id stored hget
      rw [CanvasDocument.withZIndices, get_restack, map_eq_some_iff] at hget
      obtain ⟨node, hnode, rfl⟩ := hget
      have hold := hvalid.recordsValid.nodes id node hnode
      exact hold
    · intro id stored hget
      rw [CanvasDocument.withZIndices, get_restack, map_eq_some_iff] at hget
      obtain ⟨edge, hedge, rfl⟩ := hget
      have hold := hvalid.recordsValid.edges id edge hedge
      rw [validateEdge_ok_iff] at hold ⊢
      exact ⟨hold.1, endpointFits_withZIndices document zIndices hold.2.1,
        endpointFits_withZIndices document zIndices hold.2.2⟩
    · exact hvalid.wellFormed.within
        (fun id => (containsRecord_withZIndices document zIndices id).symm)
        hvalid.isDraft.keyed fun _ hholds => hholds

variable {id : CanvasRecordId}

/-- What the command does that writes the z index of a stored record, whatever z indices
were written before. -/
theorem apply_zOrderUpdateCommand (hvalid : document.Valid) (zIndex : Int32)
    {command : DocumentCommand} (hcommand : document.zOrderUpdateCommand id zIndex = some command) :
    (document.withZIndices zIndices).apply command =
      .ok (document.withZIndices (withZIndex zIndices id zIndex)) := by
  have hafter := hvalid.withZIndices (withZIndex zIndices id zIndex)
  cases id with
  | node id =>
    obtain ⟨node, hnode, rfl⟩ := map_eq_some_iff.mp hcommand
    have hid := hvalid.wellKeyed.nodes id node hnode
    have hsame : document.withZIndices (withZIndex zIndices (.node id) zIndex) =
        { document.withZIndices zIndices with
          nodes := (document.withZIndices zIndices).nodes.insert id { node with zIndex } } := by
      rw [withZIndices, mk.injEq]
      exact ⟨rfl, (insert_restack zIndices zIndex hvalid.wellKeyed.nodes
        (fun _ _ => CanvasRecordId.node.inj) hnode).symm,
        restack_withZIndex_of_ne zIndices zIndex (by simp),
        restack_withZIndex_of_ne zIndices zIndex (by simp), rfl, rfl⟩
    rw [hsame] at hafter ⊢
    have hchecked := hafter.recordsValid.nodes id { node with zIndex } (by simp)
    have hstored : ∃ old, (document.withZIndices zIndices).nodes.get id = some old := by
      rw [withZIndices, get_restack, hnode]
      exact ⟨_, rfl⟩
    exact apply_updateNode_ok_iff.mpr ⟨hid ▸ hstored, hchecked, hafter.integrity, by rw [hid]⟩
  | edge id =>
    obtain ⟨edge, hedge, rfl⟩ := map_eq_some_iff.mp hcommand
    have hid := hvalid.wellKeyed.edges id edge hedge
    have hsame : document.withZIndices (withZIndex zIndices (.edge id) zIndex) =
        { document.withZIndices zIndices with
          edges := (document.withZIndices zIndices).edges.insert id { edge with zIndex } } := by
      rw [withZIndices, mk.injEq]
      exact ⟨rfl, restack_withZIndex_of_ne zIndices zIndex (by simp),
        (insert_restack zIndices zIndex hvalid.wellKeyed.edges
          (fun _ _ => CanvasRecordId.edge.inj) hedge).symm,
        restack_withZIndex_of_ne zIndices zIndex (by simp), rfl, rfl⟩
    rw [hsame] at hafter ⊢
    have hchecked := hafter.recordsValid.edges id { edge with zIndex } (by simp)
    have hstored : ∃ old, (document.withZIndices zIndices).edges.get id = some old := by
      rw [withZIndices, get_restack, hedge]
      exact ⟨_, rfl⟩
    exact apply_updateEdge_ok_iff.mpr ⟨hid ▸ hstored, hchecked, by rw [hid]⟩
  | shape id =>
    obtain ⟨shape, hshape, rfl⟩ := map_eq_some_iff.mp hcommand
    have hid := hvalid.wellKeyed.shapes id shape hshape
    have hsame : document.withZIndices (withZIndex zIndices (.shape id) zIndex) =
        { document.withZIndices zIndices with
          shapes := (document.withZIndices zIndices).shapes.insert id { shape with zIndex } } := by
      rw [withZIndices, mk.injEq]
      exact ⟨rfl, restack_withZIndex_of_ne zIndices zIndex (by simp),
        restack_withZIndex_of_ne zIndices zIndex (by simp),
        (insert_restack zIndices zIndex hvalid.wellKeyed.shapes
          (fun _ _ => CanvasRecordId.shape.inj) hshape).symm, rfl, rfl⟩
    have hstored : ∃ old, (document.withZIndices zIndices).shapes.get id = some old := by
      rw [withZIndices, get_restack, hshape]
      exact ⟨_, rfl⟩
    exact apply_updateShape_ok_iff.mpr ⟨hid ▸ hstored, by rw [hsame, hid]⟩

theorem exists_zOrderUpdateCommand (zIndex : Int32) (hstored : document.containsRecord id = true) :
    ∃ command, document.zOrderUpdateCommand id zIndex = some command ∧
      ∀ other : CanvasDocument, other.Reversible command := by
  cases id with
  | node id =>
    obtain ⟨node, hnode⟩ := containsKey_iff.mp hstored
    exact ⟨_, map_eq_some_iff.mpr ⟨node, hnode, rfl⟩, fun _ => trivial⟩
  | edge id =>
    obtain ⟨edge, hedge⟩ := containsKey_iff.mp hstored
    exact ⟨_, map_eq_some_iff.mpr ⟨edge, hedge, rfl⟩, fun _ => trivial⟩
  | shape id =>
    obtain ⟨shape, hshape⟩ := containsKey_iff.mp hstored
    exact ⟨_, map_eq_some_iff.mpr ⟨shape, hshape, rfl⟩, fun _ => trivial⟩

/-- Running the commands that write some z indices writes them all. -/
theorem applyAll_zOrderUpdates (hvalid : document.Valid)
    {updates : List (CanvasRecordId × Int32)} (hnodup : (updates.map Prod.fst).Nodup)
    (hstored : ∀ update ∈ updates, document.containsRecord update.1 = true) :
    (document.withZIndices zIndices).applyAll (document.zOrderUpdateCommands updates) =
      .ok (document.withZIndices fun id => (IndexMap.lookup id updates).or (zIndices id)) ∧
    (document.withZIndices zIndices).ReversibleAlong (document.zOrderUpdateCommands updates) := by
  induction updates generalizing zIndices with
  | nil => exact ⟨rfl, trivial⟩
  | cons update rest ih =>
    rw [map_cons, nodup_cons] at hnodup
    obtain ⟨hfirst, hrest⟩ := forall_mem_cons.mp hstored
    obtain ⟨command, hcommand, hreversible⟩ := exists_zOrderUpdateCommand update.2 hfirst
    have hstep := apply_zOrderUpdateCommand zIndices hvalid update.2 hcommand
    obtain ⟨hrun, halong⟩ := ih (withZIndex zIndices update.1 update.2) hnodup.2 hrest
    have hlookup : ∀ id, (IndexMap.lookup id rest).or (withZIndex zIndices update.1 update.2 id) =
        (IndexMap.lookup id (update :: rest)).or (zIndices id) := by
      intro id
      rw [IndexMap.lookup, withZIndex]
      by_cases heq : id = update.1
      · have hnone := (lookup_eq_none_iff id rest).mpr (heq ▸ hnodup.1)
        rw [hnone, if_pos heq, if_pos heq.symm]
        rfl
      · rw [if_neg heq, if_neg (Ne.symm heq)]
    have hcommands : document.zOrderUpdateCommands (update :: rest) =
        command :: document.zOrderUpdateCommands rest := filterMap_cons_some hcommand
    rw [hcommands]
    refine ⟨?_, hreversible _, ?_⟩
    · rw [applyAll_cons_ok_iff]
      refine ⟨_, hstep, ?_⟩
      rw [hrun]
      simp only [hlookup]
    · intro draft hdraft
      rw [hstep, Except.ok.injEq] at hdraft
      exact hdraft ▸ halong

end CanvasDocument

end OpenGpui.Canvas
