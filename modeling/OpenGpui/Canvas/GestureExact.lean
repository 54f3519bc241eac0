/-
Exactness of gestures.  The transaction between two documents is accepted by the
first and leads to the second exactly when the second carries the first over: a
gesture that changes bindings, or takes away a parent whose child stays, loses them.
-/
import OpenGpui.Canvas.GestureReplay

namespace OpenGpui.Canvas

open Checked CanvasDocument CanvasMutationJournal List
open Bool CanvasDocumentBuilder CanvasKindRegistry CanvasRecordRelations IndexMap

namespace CanvasRecordRelations

theorem subset_of_all_mem {α : Type} {items others : List α} (hitems : items.Nodup)
    (hsubset : ∀ item ∈ items, item ∈ others) (hlength : items.length = others.length) (item : α) :
    item ∈ items ↔ item ∈ others :=
  ((subperm_of_subset hitems hsubset).perm_of_length_le (Nat.le_of_eq hlength.symm)).mem_iff

/-- Equal relations hold the same. -/
theorem beq_iff_holds {relations other : CanvasRecordRelations} (hkeyed : relations.Keyed)
    (hother : other.Keyed) :
    (relations == other) = true ↔ ∀ relation, relations.Holds relation ↔ other.Holds relation := by
  refine ⟨fun h relation => ?_, beq_of_holds_iff hkeyed hother⟩
  change relations.matchesRelations other = true at h
  simp only [matchesRelations, and_eq_true, beq_iff_eq, all_eq_true,
    containsRelation_iff hother] at h
  obtain ⟨⟨⟨⟨⟨hparents, hgroups⟩, hbindings⟩, hparent⟩, hgroup⟩, hbinding⟩ := h
  cases relation with
  | parent relation =>
    exact subset_of_all_mem hkeyed.parents.of_map hparent hparents relation
  | group relation => exact subset_of_all_mem hkeyed.groups hgroup hgroups relation
  | binding relation =>
    exact subset_of_all_mem hkeyed.bindings.of_map hbinding hbindings relation

end CanvasRecordRelations

namespace CanvasDocument

/-- JSON data that compares equal, read from both sides. -/
def SameMetadata (document other : CanvasDocument) : Prop :=
  (document.metadata == other.metadata) = true ∧ (other.metadata == document.metadata) = true

/-- What the commands between two documents need in order to lead from the first to
the second.  A new or changed record must be equal to itself, which one with a NaN
coordinate is not. -/
structure CarriesOver (previous target : CanvasDocument) : Prop where
  formatVersion : previous.formatVersion = target.formatVersion
  edges : KeptEdgesFit previous target
  relations : UpdatesNode previous target →
    ∀ relation, previous.relations.Holds relation → target.StoresEnds relation
  parents : ParentsStay previous target
  bindings : ∀ binding, previous.relations.Holds (.binding binding) ∧
    target.StoresEnds (.binding binding) ↔ target.relations.Holds (.binding binding)
  changedNodes : ∀ id node, (previous.nodes.changes target.nodes).get id = some node →
    (node == node) = true
  changedEdges : ∀ id edge, (previous.edges.changes target.edges).get id = some edge →
    (edge == edge) = true
  changedShapes : ∀ id shape, (previous.shapes.changes target.shapes).get id = some shape →
    (shape == shape) = true

section Carried

variable {previous target : CanvasDocument} (hprevious : previous.Valid)

include hprevious

variable (htarget : target.Valid)

include htarget

theorem holds_pruned_carried_iff (relation : CanvasRecordRelation) :
    (carried previous target).pruneMissingRelations.relations.Holds relation ↔
      (carriedRelations previous target).Holds relation ∧ target.StoresEnds relation := by
  rw [pruneMissingRelations, holds_prune_iff, mem_recordIdSet_iff,
    mem_recordIdSet_iff, containsRecord_carried hprevious htarget,
    containsRecord_carried hprevious htarget, carried_eq htarget.wellKeyed]
  rfl

/-- Pruned, the written document holds the relations of the target when the bindings
do. -/
theorem holds_carried_iff_of_bindings :
    (∀ relation, (carried previous target).pruneMissingRelations.relations.Holds relation ↔
      target.relations.Holds relation) ↔
    ∀ binding, previous.relations.Holds (.binding binding) ∧
      target.StoresEnds (.binding binding) ↔ target.relations.Holds (.binding binding) := by
  have hkeyed := hprevious.isDraft.keyed
  have htargetKeyed := htarget.isDraft.keyed
  have hends : ∀ relation, target.relations.Holds relation → target.StoresEnds relation :=
    fun relation hholds => (htarget.joined relation hholds).2
  constructor
  · intro h binding
    rw [← h, holds_pruned_carried_iff hprevious htarget, holds_carried_binding hkeyed htargetKeyed]
  · intro h relation
    rw [holds_pruned_carried_iff hprevious htarget]
    cases relation with
    | parent relation => exact holds_carried_parent hkeyed htargetKeyed hends relation
    | group relation => exact holds_carried_group hkeyed htargetKeyed hends relation
    | binding relation =>
      rw [holds_carried_binding hkeyed htargetKeyed]
      exact h relation

/-- When the written document is equal to the target. -/
theorem carried_beq_iff (hmetadata : (previous.metadata == target.metadata) = true) :
    ((carried previous target).pruneMissingRelations == target) = true ↔
      previous.formatVersion = target.formatVersion ∧
      (∀ id node, (previous.nodes.changes target.nodes).get id = some node →
        (node == node) = true) ∧
      (∀ id edge, (previous.edges.changes target.edges).get id = some edge →
        (edge == edge) = true) ∧
      (∀ id shape, (previous.shapes.changes target.shapes).get id = some shape →
        (shape == shape) = true) ∧
      ∀ binding, previous.relations.Holds (.binding binding) ∧
        target.StoresEnds (.binding binding) ↔ target.relations.Holds (.binding binding) := by
  have hkeyed : (carried previous target).pruneMissingRelations.relations.Keyed := by
    rw [pruneMissingRelations, carried_eq htarget.wellKeyed]
    exact (carriedRelations_keyed hprevious.isDraft.keyed).prune _
  have hversion : (carried previous target).formatVersion = previous.formatVersion := by
    rw [carried_eq htarget.wellKeyed]
  have hdata : (carried previous target).metadata = previous.metadata := by
    rw [carried_eq htarget.wellKeyed]
  have hparts : ((carried previous target).pruneMissingRelations == target) = ((carried previous
      target).formatVersion == target.formatVersion && ((carried previous target).nodes ==
      target.nodes && ((carried previous target).edges == target.edges && ((carried previous
      target).shapes == target.shapes && ((carried previous target).metadata == target.metadata &&
      (carried previous target).pruneMissingRelations.relations == target.relations))))) := rfl
  rw [hparts, and_eq_true, and_eq_true, and_eq_true, and_eq_true, and_eq_true, hversion, hdata,
    hmetadata, carryOver_beq_iff (get_carried_nodes previous htarget.wellKeyed), carryOver_beq_iff
    (get_carried_edges hprevious htarget), carryOver_beq_iff (get_carried_shapes previous
    htarget.wellKeyed), beq_iff_holds hkeyed htarget.isDraft.keyed, holds_carried_iff_of_bindings
    hprevious htarget]
  simp

/-- A document that carries over is valid after the commands. -/
theorem carried_validateIntegrity
    (happlies : previous.Applies (transactionBetween previous target).commands)
    (hholds : ∀ relation, (carried previous target).pruneMissingRelations.relations.Holds relation ↔
        target.relations.Holds relation) :
    (carried previous target).pruneMissingRelations.validateIntegrity = .ok () := by
  have hdraft : (carried previous target).IsDraft :=
    applyAll_isDraft hprevious.isDraft happlies.applyAll
  rw [validateIntegrity_ok_iff]
  refine ⟨hdraft.records.congr rfl rfl, ?_⟩
  refine htarget.wellFormed.within (fun id => ?_) (hdraft.keyed.prune _)
    fun relation => (hholds relation).mp
  have hrecord := containsRecord_carried hprevious htarget id
  cases id <;> exact hrecord.symm

/-- Every record after the commands is one of the two documents'. -/
theorem carried_validateDocument
    {kindRegistry : CanvasKindRegistry} (hold : kindRegistry.validateDocument previous = .ok ())
    (hnext : kindRegistry.validateDocument target = .ok ()) :
    kindRegistry.validateDocument (carried previous target).pruneMissingRelations = .ok () := by
  rw [validateDocument, check_bind_eq_ok, check_bind_eq_ok, forM_eq_ok,
    forM_eq_ok, forM_eq_ok] at hold hnext ⊢
  have hvalues : ∀ {ν : Type} [BEq ν] {carried old new : IndexMap String ν}
      {check : ν → Except CanvasSchemaError Unit},
      (∀ id, carried.get id = (old.carryOver new).get id) →
      (∀ value ∈ old.values, check value = .ok ()) → (∀ value ∈ new.values, check value = .ok ()) →
      ∀ value ∈ carried.values, check value = .ok () := by
    intro ν _ carried old new check hget holdChecks hnewChecks value hmem
    obtain ⟨id, hid⟩ := mem_values_iff.mp hmem
    rw [hget, get_carryOver_eq_some_iff] at hid
    rcases hid with hchange | ⟨hstored, _⟩
    · exact hnewChecks value (mem_values_iff.mpr ⟨id, (get_changes_eq_some_iff.mp hchange).1⟩)
    · exact holdChecks value (mem_values_iff.mpr ⟨id, hstored⟩)
  exact ⟨hvalues (get_carried_nodes previous htarget.wellKeyed) hold.1 hnext.1,
    hvalues (get_carried_edges hprevious htarget) hold.2.1 hnext.2.1,
    hvalues (get_carried_shapes previous htarget.wellKeyed) hold.2.2 hnext.2.2⟩

end Carried

/-- The transaction is accepted by the document and leads to the target. -/
def Replays (document : CanvasDocument) (transaction : CanvasTransaction)
    (target : CanvasDocument) : Prop :=
  ∃ committed result, commit document transaction = (.ok committed, result) ∧
    (result == target) = true

/-- The registry keeps the records of the transaction as they are and accepts both
documents. -/
structure Settled (kindRegistry : CanvasKindRegistry) (previous target : CanvasDocument) :
    Prop where
  normalized : kindRegistry.normalizeTransaction (transactionBetween previous target) =
    .ok (transactionBetween previous target)
  previous : kindRegistry.validateDocument previous = .ok ()
  target : kindRegistry.validateDocument target = .ok ()

theorem settled_openRegistry (previous target : CanvasDocument) :
    Settled .openRegistry previous target :=
  ⟨openRegistry_normalizeTransaction _, openRegistry_validateDocument _,
    openRegistry_validateDocument _⟩

variable {previous target : CanvasDocument} {kindRegistry : CanvasKindRegistry}

/-- With a registry that is settled, the transaction between two documents is
prepared and leads to the second exactly when the second carries the first over. -/
theorem prepare_transactionBetween_iff (hprevious : previous.Valid) (htarget : target.Valid)
    (hmetadata : (previous.metadata == target.metadata) = true)
    (hsettled : Settled kindRegistry previous target) :
    (∃ prepared, prepareWithKindRegistry previous (transactionBetween previous target)
      kindRegistry = .ok prepared ∧ (prepared.document == target) = true) ↔
      CarriesOver previous target := by
  constructor
  · rintro ⟨prepared, hprepared, hequal⟩
    obtain ⟨normalized, _, draft, hnormalized, _, happly, hdocument, _, hschema, _⟩ :=
      prepare_ok_steps hprepared
    rw [hsettled.normalized, Except.ok.injEq] at hnormalized
    subst hnormalized
    have happlies : previous.Applies (transactionBetween previous target).commands :=
      ⟨draft, happly⟩
    have hcarried : draft = carried previous target := effects_of_applyAll happly
    have hvalid := prepare_valid hprevious hprepared
    rw [hdocument, hcarried] at hequal hvalid hschema
    rw [hcarried] at happly
    obtain ⟨hversion, hnodes, hedges, hshapes, hbindings⟩ :=
      (carried_beq_iff hprevious htarget hmetadata).mp hequal
    obtain ⟨hfit, hupdates⟩ := (applies_transactionBetween_iff hprevious htarget).mp happlies
    have hreversible := (prepare_ok_iff hprevious hsettled.normalized happly hvalid.integrity
      hschema).mp ⟨prepared, hprepared⟩
    exact ⟨hversion, hfit, hupdates, (reversibleAlong_transactionBetween_iff hprevious htarget
      happlies).mp hreversible, hbindings, hnodes, hedges, hshapes⟩
  · intro h
    have happlies := (applies_transactionBetween_iff hprevious htarget).mpr ⟨h.edges, h.relations⟩
    have hreversible :=
      (reversibleAlong_transactionBetween_iff hprevious htarget happlies).mpr h.parents
    have hholds := (holds_carried_iff_of_bindings hprevious htarget).mpr h.bindings
    have hequal := (carried_beq_iff hprevious htarget hmetadata).mpr
      ⟨h.formatVersion, h.changedNodes, h.changedEdges, h.changedShapes, h.bindings⟩
    obtain ⟨prepared, hprepared⟩ := (prepare_ok_iff hprevious hsettled.normalized happlies.applyAll
      (carried_validateIntegrity hprevious htarget happlies hholds)
      (carried_validateDocument hprevious htarget hsettled.previous hsettled.target)).mpr
        hreversible
    obtain ⟨normalized, _, draft, hnormalized, _, happly, hdocument, _⟩ :=
      prepare_ok_steps hprepared
    rw [hsettled.normalized, Except.ok.injEq] at hnormalized
    subst hnormalized
    refine ⟨prepared, hprepared, ?_⟩
    rw [hdocument, effects_of_applyAll happly]
    exact hequal

theorem replays_transactionBetween_iff (hprevious : previous.Valid) (htarget : target.Valid)
    (hmetadata : (previous.metadata == target.metadata) = true) :
    previous.Replays (transactionBetween previous target) target ↔ CarriesOver previous target := by
  rw [← prepare_transactionBetween_iff hprevious htarget hmetadata
    (settled_openRegistry previous target)]
  constructor
  · rintro ⟨committed, result, hcommit, hequal⟩
    exact ⟨_, commitWithKindRegistry_ok_iff.mp hcommit, hequal⟩
  · rintro ⟨prepared, hprepared, hequal⟩
    exact ⟨prepared.committed, prepared.document, commitWithKindRegistry_ok_iff.mpr hprepared,
      hequal⟩

end CanvasDocument

namespace CanvasGestureSession

/-- The gesture can be committed, and what it commits replays from its baseline to
the current document; nothing is committed only when nothing changed. -/
def CommitReplays (gesture : CanvasGestureSession) (current : CanvasDocument)
    (kindRegistry : CanvasKindRegistry) : Prop :=
  ∃ prepared, gesture.prepareCommitWithKindRegistry current kindRegistry = .ok prepared ∧
    match prepared with
    | none => (gesture.baseline == current) = true
    | some prepared => gesture.baseline.Replays prepared.committed.transaction current

variable {previous target : CanvasDocument} {kindRegistry : CanvasKindRegistry}

variable {gesture : CanvasGestureSession}

theorem prepareCommit_of_isEmpty
    (hempty : (transactionBetween gesture.baseline target).isEmpty = true) :
    gesture.prepareCommitWithKindRegistry target kindRegistry = .ok none := by
  rw [prepareCommitWithKindRegistry]
  simp only [hempty, if_true]
  rfl

theorem prepareCommit_ok_iff {prepared : Option CanvasPreparedGestureCommit}
    (hnonempty : ¬ (transactionBetween gesture.baseline target).isEmpty = true) :
    gesture.prepareCommitWithKindRegistry target kindRegistry = .ok prepared ↔
      ∃ mutation, prepareWithKindRegistry gesture.baseline
        (transactionBetween gesture.baseline target) kindRegistry = .ok mutation ∧
        prepared = some ⟨mutation.committed⟩ := by
  rw [prepareCommitWithKindRegistry]
  simp only [hnonempty, if_false, bind_eq_ok, pure_eq_ok, false_eq_true]
  exact exists_congr fun mutation => and_congr_right fun _ => eq_comm

/-- Committing an empty transaction leaves a valid document as it is. -/
theorem prepare_of_isEmpty (hprevious : previous.Valid)
    (hempty : (transactionBetween previous target).isEmpty = true)
    {prepared : CanvasPreparedMutation}
    (h : prepareWithKindRegistry previous (transactionBetween previous target) .openRegistry =
      .ok prepared) : prepared.document = previous := by
  obtain ⟨normalized, _, draft, hnormalized, _, happly, hdocument, _⟩ := prepare_ok_steps h
  rw [openRegistry_normalizeTransaction, Except.ok.injEq] at hnormalized
  subst hnormalized
  have hnil : (transactionBetween previous target).commands = [] := isEmpty_iff.mp hempty
  rw [hnil] at happly
  cases happly
  rw [hdocument, pruneMissingRelations_of_wellFormed hprevious.wellFormed]

/-- A gesture is committed exactly when its documents carry over. -/
theorem commitReplays_iff (hprevious : previous.Valid) (htarget : target.Valid)
    (hmetadata : (previous.metadata == target.metadata) = true)
    (hsettled : Settled kindRegistry previous target) :
    (begin previous).CommitReplays target kindRegistry ↔ CarriesOver previous target := by
  by_cases hempty : (transactionBetween previous target).isEmpty = true
  · have hnone : (begin previous).prepareCommitWithKindRegistry target kindRegistry = .ok none :=
      prepareCommit_of_isEmpty hempty
    rw [CommitReplays, hnone, ← prepare_transactionBetween_iff hprevious htarget hmetadata
      (settled_openRegistry previous target)]
    constructor
    · rintro ⟨prepared, hprepared, hequal⟩
      cases hprepared
      have hnil : (transactionBetween previous target).commands = [] := isEmpty_iff.mp hempty
      have hprune := pruneMissingRelations_of_wellFormed hprevious.wellFormed
      have happly : previous.applyAll (transactionBetween previous target).commands =
          .ok previous := by
        rw [hnil]
        rfl
      obtain ⟨mutation, hmutation⟩ := (prepare_ok_iff hprevious (openRegistry_normalizeTransaction
        _) happly (hprune.symm ▸ hprevious.integrity) (openRegistry_validateDocument _)).mpr (hnil ▸
        trivial)
      refine ⟨mutation, hmutation, ?_⟩
      rw [prepare_of_isEmpty hprevious hempty hmutation]
      exact hequal
    · rintro ⟨mutation, hmutation, hequal⟩
      rw [prepare_of_isEmpty hprevious hempty hmutation] at hequal
      exact ⟨none, rfl, hequal⟩
  · have hsome : ∀ prepared, (begin previous).prepareCommitWithKindRegistry target kindRegistry =
        .ok prepared ↔ ∃ mutation, prepareWithKindRegistry previous
          (transactionBetween previous target) kindRegistry = .ok mutation ∧
          prepared = some ⟨mutation.committed⟩ := fun prepared => prepareCommit_ok_iff hempty
    have htransaction : ∀ mutation, prepareWithKindRegistry previous
        (transactionBetween previous target) kindRegistry = .ok mutation →
          mutation.committed.transaction = transactionBetween previous target := by
      intro mutation hmutation
      obtain ⟨normalized, _, _, hnormalized, _, _, _, _, _, heq, _⟩ := prepare_ok_steps hmutation
      rw [hsettled.normalized, Except.ok.injEq] at hnormalized
      exact heq.trans hnormalized.symm
    constructor
    · rintro ⟨prepared, hprepared, hreplays⟩
      obtain ⟨mutation, hmutation, rfl⟩ := (hsome prepared).mp hprepared
      dsimp only at hreplays
      rw [htransaction mutation hmutation] at hreplays
      exact (replays_transactionBetween_iff hprevious htarget hmetadata).mp hreplays
    · intro h
      obtain ⟨mutation, hmutation, _⟩ :=
        (prepare_transactionBetween_iff hprevious htarget hmetadata hsettled).mpr h
      refine ⟨some ⟨mutation.committed⟩, (hsome _).mpr ⟨mutation, hmutation, rfl⟩, ?_⟩
      dsimp only
      rw [htransaction mutation hmutation]
      exact (replays_transactionBetween_iff hprevious htarget hmetadata).mpr h

/-- Exactness of gestures.  Between valid documents with the same metadata, the
derived transaction replays, and so a gesture can be committed, exactly when the
baseline carries over to the current document; it can be cancelled exactly when the
current document carries over to the baseline. -/
theorem gesture_exact_iff (hprevious : previous.Valid) (htarget : target.Valid)
    (hmetadata : previous.SameMetadata target) :
    (previous.Replays (transactionBetween previous target) target ↔ CarriesOver previous target) ∧
      (∀ kindRegistry, Settled kindRegistry previous target →
        ((begin previous).CommitReplays target kindRegistry ↔ CarriesOver previous target)) ∧
      (target.Replays ((begin previous).cancelTransaction target) previous ↔
        CarriesOver target previous) :=
  ⟨replays_transactionBetween_iff hprevious htarget hmetadata.1,
    fun _ hsettled => commitReplays_iff hprevious htarget hmetadata.1 hsettled,
    replays_transactionBetween_iff htarget hprevious hmetadata.2⟩

end CanvasGestureSession

namespace GestureWitness

open CanvasGestureSession

def origin : Point := ⟨.finite 0, .finite 0⟩

def extent : Size := ⟨.finite 10, .finite 10⟩

def card : CanvasNode := CanvasNode.new "card" origin extent

def moved : CanvasNode := CanvasNode.new "card" ⟨.finite 40, .finite 0⟩ extent

def frame : CanvasShape := CanvasShape.new "frame" ⟨origin, extent⟩

/-- A card beside a frame. -/
def restingCalls : List BuilderCall := [.addNode card, .addShape frame]

/-- The card moved and framed. -/
def framedCalls : List BuilderCall :=
  [.addNode moved, .addShape frame, .withRelations ⟨[⟨.node "card", .shape "frame"⟩], [], []⟩]

/-- The card bound to the frame. -/
def boundCalls : List BuilderCall :=
  [.addNode card, .addShape frame,
    .withRelations ⟨[], [], [.new "tie" (.node "card") (.shape "frame")]⟩]

def built (calls : List BuilderCall) : CanvasDocument :=
  (CanvasDocumentBuilder.afterCalls calls).document

theorem built_valid {calls : List BuilderCall} (h : (afterCalls calls).build = .ok (built calls)) :
    (built calls).Valid :=
  builds_valid (Or.inl h)

/-- What a commit leads to, when it is accepted. -/
def committedResult (document : CanvasDocument) (transaction : CanvasTransaction) :
    Option CanvasDocument :=
  (commit document transaction).1.toOption.map fun _ => (commit document transaction).2

theorem replays_iff {document target : CanvasDocument} {transaction : CanvasTransaction} :
    document.Replays transaction target ↔
      (committedResult document transaction).any (· == target) = true := by
  rw [Replays, committedResult]
  cases hcommit : commit document transaction with
  | mk result after =>
    cases result with
    | error error | ok committed => simp [Except.toOption]

theorem gesture_exact_iff_framing :
    (begin (built restingCalls)).CommitReplays (built framedCalls) .openRegistry ∧
      (built framedCalls).Replays
        ((begin (built restingCalls)).cancelTransaction (built framedCalls))
            (built restingCalls) := by
  have hforward : (committedResult (built restingCalls) (transactionBetween (built restingCalls)
      (built framedCalls))).any (· == built framedCalls) = true := by decide
  have hback : (committedResult (built framedCalls) (transactionBetween (built framedCalls) (built
      restingCalls))).any (· == built restingCalls) = true := by decide
  obtain ⟨htransaction, hcommit, hcancel⟩ := gesture_exact_iff (built_valid rfl) (built_valid rfl)
    (show (built restingCalls).SameMetadata (built framedCalls) from ⟨by decide, by decide⟩)
  have hcarries := htransaction.mp (replays_iff.mpr hforward)
  have hcarriesBack := (replays_transactionBetween_iff (built_valid rfl) (built_valid rfl)
    (by decide)).mp (replays_iff.mpr hback)
  exact ⟨(hcommit .openRegistry (settled_openRegistry _ _)).mpr hcarries, hcancel.mpr hcarriesBack⟩

/-- A binding that a gesture makes is not part of its transaction. -/
theorem gesture_not_exact_binding : ¬ ∀ previous target : CanvasDocument, previous.Valid →
    target.Valid → previous.SameMetadata target →
      previous.Replays (transactionBetween previous target) target := by
  intro h
  have hreplays := h (built restingCalls) (built boundCalls) (built_valid rfl) (built_valid rfl)
    ⟨by decide, by decide⟩
  have hlost : (committedResult (built restingCalls) (transactionBetween (built restingCalls) (built
      boundCalls))).any (· == built boundCalls) = false := by decide
  rw [replays_iff, hlost] at hreplays
  exact false_ne_true hreplays

end GestureWitness

end OpenGpui.Canvas
