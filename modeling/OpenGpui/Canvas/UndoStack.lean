/-
Stacks of transactions that lead back.  Committing the transactions of an undo stack
one after another brings a document back; this depends on a document only up to the
order of its records and up to records that compare equal.
-/
import OpenGpui.Canvas.Alike
import OpenGpui.Canvas.Diff
import OpenGpui.Canvas.Settled

namespace OpenGpui.Canvas

open Checked CanvasDocument Bool CanvasKindRegistry IndexMap SettledRecords List Option

namespace CanvasDocument

section Effects

variable {document other : CanvasDocument}

/-- Maps that a diff finds no difference in are alike. -/
theorem alikeMaps_of_no_changes {ν : Type} [BEq ν] [PartialEquivBEq ν]
    {current previous : IndexMap String ν} (hnew : newIds current previous = [])
    (hchanged : changedIds current previous = []) (hgone : goneIds current previous = []) :
    previous.AlikeMaps current := by
  constructor
  · intro id
    rw [Bool.eq_iff_iff, IndexMap.containsKey_iff, IndexMap.containsKey_iff]
    constructor
    · rintro ⟨old, hold⟩
      by_contra hlost
      have hmem : id ∈ goneIds current previous :=
        (mem_goneIds_iff current previous).mpr
          ⟨⟨old, hold⟩, eq_none_iff_forall_ne_some.mpr fun new h => hlost ⟨new, h⟩⟩
      rw [hgone] at hmem
      exact absurd hmem not_mem_nil
    · rintro ⟨new, hget⟩
      by_contra hlost
      have hmem : id ∈ newIds current previous :=
        (mem_newIds_iff current previous).mpr
          ⟨⟨new, hget⟩, eq_none_iff_forall_ne_some.mpr fun old h => hlost ⟨old, h⟩⟩
      rw [hnew] at hmem
      exact absurd hmem not_mem_nil
  · intro id old new hold hget
    by_contra hdiffers
    have hne : (old == new) = false := by
      rw [eq_false_iff]
      exact fun hequal => hdiffers (.inr hequal)
    have hmem : id ∈ changedIds current previous :=
      (mem_changedIds_iff current previous).mpr ⟨old, new, hold, hget, hne⟩
    rw [hchanged] at hmem
    exact absurd hmem not_mem_nil

/-- An empty diff is one of like documents. -/
theorem alike_of_diff_isEmpty (hversion : document.formatVersion = other.formatVersion)
    (hmetadata : document.metadata = other.metadata) (hkeyed : document.relations.Keyed)
    (hother : other.relations.Keyed) (h : (other.diffAgainst document).isEmpty = true) :
    document.AlikeDocuments other := by
  rw [diffAgainst_eq] at h
  simp only [CanvasDocumentDiff.isEmpty, and_eq_true, List.isEmpty_iff, List.append_eq_nil_iff,
    List.map_eq_nil_iff, not_eq_true'] at h
  obtain ⟨⟨⟨⟨⟨⟨hnewNodes, hnewEdges⟩, hnewShapes⟩, ⟨hnodes, hedges⟩, hshapes⟩,
    ⟨hgoneNodes, hgoneEdges⟩, hgoneShapes⟩, _⟩, hrelations⟩ := h
  refine ⟨hversion, hmetadata, alikeMaps_of_no_changes hnewNodes hnodes hgoneNodes,
    alikeMaps_of_no_changes hnewEdges hedges hgoneEdges,
    alikeMaps_of_no_changes hnewShapes hshapes hgoneShapes, fun relation => ?_⟩
  have hequal : (other.relations == document.relations) = true := by
    rw [← not_eq_false', ← bne, hrelations]
  exact ((CanvasRecordRelations.beq_iff_holds hother hkeyed).mp hequal relation).symm

end Effects

variable {property : CanvasRecord → Prop}

/-- The commands between two documents write records of the second. -/
theorem everyWritten_transactionBetween
    (previous target : CanvasDocument) (hrecords : EveryRecord property target) :
    EveryWritten property (transactionBetween previous target).commands := by
  have hwrites : ∀ {ν : Type} [BEq ν] (insert update : ν → DocumentCommand) (tag : ν → CanvasRecord)
      (old new : IndexMap String ν), (∀ value, (insert value).record = some (tag value)) →
      (∀ value, (update value).record = some (tag value)) →
      (∀ value, (∃ id, new.get id = some value) → property (tag value)) →
      EveryWritten property (recordCommands insert update old new) := by
    intro ν _ insert update tag old new hinsert hupdate hkeeps command hmem record hrecord
    rw [recordCommands_eq, List.mem_map] at hmem
    obtain ⟨entry, hentry, rfl⟩ := hmem
    have hnew := (get_changes_eq_some_iff.mp (get_eq_some_iff.mpr hentry)).1
    have htag : record = tag entry.2 := by
      by_cases hstored : old.containsKey entry.1 = true
      · rw [if_pos hstored, hupdate, some.injEq] at hrecord
        exact hrecord.symm
      · rw [if_neg hstored, hinsert, some.injEq] at hrecord
        exact hrecord.symm
    exact htag ▸ hkeeps entry.2 ⟨entry.1, hnew⟩
  have hrelations : EveryWritten property (relationCommands previous target) := by
    intro command hmem record hrecord
    simp only [relationCommands, mem_append, List.mem_map] at hmem
    rcases hmem with ((⟨_, _, rfl⟩ | ⟨_, _, rfl⟩) | ⟨_, _, rfl⟩) | ⟨_, _, rfl⟩ <;> cases hrecord
  have hremovals : EveryWritten property (removalCommands previous target) := by
    intro command hmem record hrecord
    simp only [removalCommands, mem_append, List.mem_map] at hmem
    rcases hmem with (⟨_, _, rfl⟩ | ⟨_, _, rfl⟩) | ⟨_, _, rfl⟩ <;> cases hrecord
  refine (((hremovals.append ?_).append ?_).append ?_).append hrelations
  · exact hwrites .insertNode .updateNode .node _ _ (fun _ => rfl) (fun _ => rfl)
      fun node => hrecords (.node node)
  · exact hwrites .insertShape .updateShape .shape _ _ (fun _ => rfl) (fun _ => rfl)
      fun shape => hrecords (.shape shape)
  · exact hwrites .insertEdge .updateEdge .edge _ _ (fun _ => rfl) (fun _ => rfl)
      fun edge => hrecords (.edge edge)

/-- The bindings of the target are those of the previous document that its records
can have. -/
def BindingsStay (previous target : CanvasDocument) : Prop :=
  ∀ binding, previous.relations.Holds (.binding binding) ∧ target.StoresEnds (.binding binding) ↔
    target.relations.Holds (.binding binding)

/-- What the commands between two documents need in order to lead to one like the
second. -/
structure LeadsTo (previous target : CanvasDocument) : Prop where
  edges : KeptEdgesFit previous target
  relations : UpdatesNode previous target →
    ∀ relation, previous.relations.Holds relation → target.StoresEnds relation
  parents : ParentsStay previous target
  bindings : BindingsStay previous target

theorem carried_alike {previous target : CanvasDocument} (hprevious : previous.Valid)
    (htarget : target.Valid) (hversion : previous.formatVersion = target.formatVersion)
    (hmetadata : previous.metadata = target.metadata) (hbindings : BindingsStay previous target) :
    (carried previous target).pruneMissingRelations.AlikeDocuments target :=
  ⟨(effects_formatVersion previous _).trans hversion, (effects_metadata previous _).trans hmetadata,
    .carryOver (get_carried_nodes previous htarget.wellKeyed),
    .carryOver (get_carried_edges hprevious htarget),
    .carryOver (get_carried_shapes previous htarget.wellKeyed),
    (holds_carried_iff_of_bindings hprevious htarget).mpr hbindings⟩

theorem EveryRecord.congr {document other : CanvasDocument}
    (h : EveryRecord property other) (hsame : document.SameRecords other) :
    EveryRecord property document := by
  intro record hrecord
  cases record with
  | node node =>
    obtain ⟨id, hid⟩ := hrecord
    exact h (.node node) ⟨id, hsame.nodes id ▸ hid⟩
  | edge edge =>
    obtain ⟨id, hid⟩ := hrecord
    exact h (.edge edge) ⟨id, hsame.edges id ▸ hid⟩
  | shape shape =>
    obtain ⟨id, hid⟩ := hrecord
    exact h (.shape shape) ⟨id, hsame.shapes id ▸ hid⟩

end CanvasDocument

namespace CanvasMutationJournal

variable {document other : CanvasDocument} {transaction : CanvasTransaction}
  {registry : CanvasKindRegistry} {prepared : CanvasPreparedMutation}

theorem prepare_metadata
    (h : prepareWithKindRegistry document transaction registry = .ok prepared) :
    prepared.document.formatVersion = document.formatVersion ∧
      prepared.document.metadata = document.metadata := by
  obtain ⟨_, _, draft, _, _, happly, hdocument, _⟩ := prepare_ok_steps h
  rw [hdocument, effects_of_applyAll happly]
  exact ⟨effects_formatVersion document _, effects_metadata document _⟩

/-- A mutation without a difference leads to a like document. -/
theorem alike_of_prepare_diff (hvalid : document.Valid)
    (h : prepareWithKindRegistry document transaction registry = .ok prepared)
    (hdiff : prepared.committed.diff.isEmpty = true) :
    document.AlikeDocuments prepared.document := by
  obtain ⟨hversion, hmetadata⟩ := prepare_metadata h
  have hkeyed := (prepare_valid hvalid h).isDraft.keyed
  obtain ⟨_, _, _, _, _, _, _, _, _, _, _, heq⟩ := prepare_ok_steps h
  rw [heq] at hdiff
  exact alike_of_diff_isEmpty hversion.symm hmetadata.symm hvalid.isDraft.keyed hkeyed hdiff

/-- A transaction that one of two like documents accepts is accepted by the other,
with a like result, unless a schema refuses it. -/
theorem prepare_alike (halike : document.AlikeDocuments other) (hvalid : document.Valid)
    (hother : other.Valid)
    (haccepts : ∀ normalized, registry.normalizeTransaction transaction = .ok normalized →
      registry.validateDocument (other.effects normalized.commands).pruneMissingRelations = .ok ())
    (h : prepareWithKindRegistry document transaction registry = .ok prepared) :
    ∃ counterpart, prepareWithKindRegistry other transaction registry = .ok counterpart ∧
      prepared.document.AlikeDocuments counterpart.document := by
  obtain ⟨normalized, _, draft, hnormalized, _, happly, hdocument, _, hschema, _⟩ :=
    prepare_ok_steps h
  have hdraft := hvalid.isDraft
  have hotherDraft := hother.isDraft
  have hvalidResult := prepare_valid hvalid h
  have hresult : draft = document.effects normalized.commands := effects_of_applyAll happly
  rw [hdocument, hresult] at hvalidResult hschema
  rw [hresult] at happly
  obtain ⟨happlies, heffects⟩ := halike.applies hdraft hotherDraft ⟨_, happly⟩
  have hpruned := heffects.pruneMissingRelations
  have hlast := applyAll_isDraft hotherDraft happlies.applyAll
  have hwellFormed := hpruned.symm.wellFormed (hlast.keyed.prune _) hvalidResult.wellFormed
  have hintegrity : (other.effects normalized.commands).pruneMissingRelations.validateIntegrity =
      .ok () := (validateIntegrity_ok_iff _).mpr ⟨hlast.records.congr rfl rfl, hwellFormed⟩
  have hreversible := (prepare_ok_iff hvalid hnormalized happly hvalidResult.integrity hschema).mp
    ⟨prepared, h⟩
  obtain ⟨counterpart, hcounterpart⟩ := (prepare_ok_iff hother hnormalized happlies.applyAll
    hintegrity (haccepts normalized hnormalized)).mpr
      (halike.reversibleAlong hdraft hotherDraft ⟨_, happly⟩ hreversible)
  refine ⟨counterpart, hcounterpart, ?_⟩
  obtain ⟨_, _, last, hsame, _, hotherApply, hotherDocument, _⟩ := prepare_ok_steps hcounterpart
  rw [hnormalized, Except.ok.injEq] at hsame
  subst hsame
  rw [hdocument, hresult, hotherDocument, effects_of_applyAll hotherApply]
  exact hpruned

section

variable (hregistry : registry.Idempotent)

include hregistry

/-- `prepare_alike` with a registry that keeps what it normalized. -/
theorem prepare_alike_settled
    (halike : document.AlikeDocuments other) (hvalid : document.Valid) (hother : other.Valid)
    (hsettled : SettledRecords registry other)
    (h : prepareWithKindRegistry document transaction registry = .ok prepared) :
    ∃ counterpart, prepareWithKindRegistry other transaction registry = .ok counterpart ∧
      prepared.document.AlikeDocuments counterpart.document := by
  refine prepare_alike halike hvalid hother (fun normalized hnormalized => ?_) h
  have hcommands := keepsCommands_of_normalizeTransaction hregistry hnormalized
  exact validateDocument (hsettled.effects hcommands).pruneMissingRelations

/-- The inverse of a prepared mutation is accepted by the same registry. -/
theorem prepare_inverse_settled (hvalid : document.Valid)
    (hsettled : SettledRecords registry document)
    (h : prepareWithKindRegistry document transaction registry = .ok prepared) :
    ∃ undone, prepareWithKindRegistry prepared.document prepared.committed.inverse registry =
      .ok undone ∧ undone.document.SameContents document := by
  obtain ⟨_, hkept⟩ := prepare_settled hregistry hvalid hsettled h
  refine prepare_inverse hvalid h (normalizeTransaction_of_keeps hkept) ?_
  exact fun final hcontents => validateDocument (hsettled.congr hcontents.records)

/-- An empty inverse comes with a mutation that changes no contents. -/
theorem alike_of_inverse_isEmpty (hvalid : document.Valid)
    (hsettled : SettledRecords registry document)
    (h : prepareWithKindRegistry document transaction registry = .ok prepared)
    (hempty : prepared.committed.inverse.isEmpty = true) :
    prepared.document.AlikeDocuments document := by
  obtain ⟨undone, hundone, hcontents⟩ := prepare_inverse_settled hregistry hvalid hsettled h
  have hresult := prepare_valid hvalid h
  obtain ⟨_, hkept⟩ := prepare_settled hregistry hvalid hsettled h
  obtain ⟨_, _, draft, hnormalized, _, happly, hdocument, _⟩ := prepare_ok_steps hundone
  rw [normalizeTransaction_of_keeps hkept, Except.ok.injEq] at hnormalized
  subst hnormalized
  rw [isEmpty_iff.mp hempty] at happly
  cases happly
  rw [hdocument, pruneMissingRelations_of_wellFormed hresult.wellFormed] at hcontents
  exact hcontents.alike

end

section Between

variable {previous target : CanvasDocument}

/-- The commands between two documents, once accepted, lead to one like the second. -/
theorem alike_of_prepare_between (hprevious : previous.Valid) (htarget : target.Valid)
    (hkept : registry.normalizeTransaction (transactionBetween previous target) =
      .ok (transactionBetween previous target))
    (hversion : previous.formatVersion = target.formatVersion)
    (hmetadata : previous.metadata = target.metadata) (hbindings : BindingsStay previous target)
    (h : prepareWithKindRegistry previous (transactionBetween previous target) registry =
      .ok prepared) : prepared.document.AlikeDocuments target := by
  obtain ⟨_, _, draft, hnormalized, _, happly, hdocument, _⟩ := prepare_ok_steps h
  rw [hkept, Except.ok.injEq] at hnormalized
  subst hnormalized
  rw [hdocument, effects_of_applyAll happly]
  exact carried_alike hprevious htarget hversion hmetadata hbindings

/-- No commands are needed between like documents only. -/
theorem alike_of_between_isEmpty (hprevious : previous.Valid) (htarget : target.Valid)
    (hversion : previous.formatVersion = target.formatVersion)
    (hmetadata : previous.metadata = target.metadata) (hbindings : BindingsStay previous target)
    (hempty : (transactionBetween previous target).isEmpty = true) :
    previous.AlikeDocuments target := by
  have halike := carried_alike hprevious htarget hversion hmetadata hbindings
  have hsame : carried previous target = previous := by
    rw [carried, isEmpty_iff.mp hempty]
    rfl
  rw [hsame, pruneMissingRelations_of_wellFormed hprevious.wellFormed] at halike
  exact halike

theorem normalizeTransaction_between (hsettled : SettledRecords registry target) :
    registry.normalizeTransaction (transactionBetween previous target) =
      .ok (transactionBetween previous target) :=
  normalizeTransaction_of_keeps (everyWritten_transactionBetween previous target hsettled)

/-- A document leads to another one by the commands between them. -/
theorem prepare_between_of_leadsTo (hprevious : previous.Valid) (htarget : target.Valid)
    (hold : SettledRecords registry previous) (hsettled : SettledRecords registry target)
    (h : LeadsTo previous target) :
    ∃ prepared, prepareWithKindRegistry previous (transactionBetween previous target) registry =
      .ok prepared := by
  have hcommands := everyWritten_transactionBetween previous target hsettled
  have happlies := (applies_transactionBetween_iff hprevious htarget).mpr ⟨h.edges, h.relations⟩
  have hreversible :=
    (reversibleAlong_transactionBetween_iff hprevious htarget happlies).mpr h.parents
  have hholds := (holds_carried_iff_of_bindings hprevious htarget).mpr h.bindings
  exact (prepare_ok_iff hprevious (normalizeTransaction_of_keeps hcommands)
    happlies.applyAll (carried_validateIntegrity hprevious htarget happlies hholds)
    (validateDocument (hold.effects hcommands).pruneMissingRelations)).mpr hreversible

end Between

/-- Committing the transactions of a stack, the top first, leads from the document to
one like the last; the registry keeps what they write. -/
def Unwinds (registry : CanvasKindRegistry) :
    CanvasDocument → List CanvasTransaction → CanvasDocument → Prop
  | document, [], last => document.AlikeDocuments last
  | document, transaction :: rest, last =>
    EveryWritten registry.Keeps transaction.commands ∧
      ∃ prepared, prepareWithKindRegistry document transaction registry = .ok prepared ∧
        Unwinds registry prepared.document rest last

namespace Unwinds

variable {last : CanvasDocument} {stack : List CanvasTransaction}

/-- A like document unwinds to the same. -/
theorem congr (hregistry : registry.Idempotent) (halike : document.AlikeDocuments other)
    (hvalid : document.Valid) (hother : other.Valid) (hsettled : SettledRecords registry other)
    (h : Unwinds registry document stack last) : Unwinds registry other stack last := by
  induction stack generalizing document other with
  | nil => exact halike.symm.trans h
  | cons transaction rest ih =>
    obtain ⟨hkept, prepared, hprepared, hrest⟩ := h
    obtain ⟨counterpart, hcounterpart, hresult⟩ :=
      prepare_alike_settled hregistry halike hvalid hother hsettled hprepared
    refine ⟨hkept, counterpart, hcounterpart, ?_⟩
    exact ih hresult (prepare_valid hvalid hprepared) (prepare_valid hother hcounterpart)
      (prepare_settled hregistry hother hsettled hcounterpart).1 hrest

theorem tail (h : Unwinds registry document (transaction :: stack) last)
    (hprepared : prepareWithKindRegistry document transaction registry = .ok prepared) :
    Unwinds registry prepared.document stack last := by
  obtain ⟨_, other, hother, hrest⟩ := h
  rw [hprepared, Except.ok.injEq] at hother
  exact hother ▸ hrest

/-- The result of a mutation unwinds through its inverse. -/
theorem push (hregistry : registry.Idempotent) (hvalid : document.Valid)
    (hsettled : SettledRecords registry document)
    (hprepared : prepareWithKindRegistry document transaction registry = .ok prepared)
    (h : Unwinds registry document stack last) :
    Unwinds registry prepared.document (prepared.committed.inverse :: stack) last := by
  obtain ⟨undone, hundone, hcontents⟩ := prepare_inverse_settled hregistry hvalid hsettled hprepared
  have hresult := prepare_valid hvalid hprepared
  obtain ⟨hresultSettled, hkept⟩ := prepare_settled hregistry hvalid hsettled hprepared
  refine ⟨hkept, undone, hundone, congr hregistry hcontents.alike.symm hvalid (prepare_valid hresult
    hundone) (prepare_settled hregistry hresult hresultSettled hundone).1 h⟩

end Unwinds

end CanvasMutationJournal

end OpenGpui.Canvas
