/-
Records that a kind registry keeps as they are.  A registry whose policies change
nothing in what they normalized accepts every document that commits lead to, and
keeps the inverses that come with them.
-/
import OpenGpui.Canvas.Effects
import OpenGpui.Canvas.Undo

namespace OpenGpui.Canvas

open Checked CanvasKindRegistry DocumentCommand IndexMap List

/-- The record a command writes. -/
def DocumentCommand.record : DocumentCommand → Option CanvasRecord
  | .insertNode node | .updateNode node => some (.node node)
  | .insertEdge edge | .updateEdge edge => some (.edge edge)
  | .insertShape shape | .updateShape shape => some (.shape shape)
  | _ => none

/-- Every record the commands write has the property. -/
def EveryWritten (property : CanvasRecord → Prop) (commands : List DocumentCommand) : Prop :=
  ∀ command ∈ commands, ∀ record, command.record = some record → property record

namespace EveryWritten

variable {property : CanvasRecord → Prop}

theorem append {first second : List DocumentCommand} (hfirst : EveryWritten property first)
    (hsecond : EveryWritten property second) : EveryWritten property (first ++ second) := by
  intro command hmem
  rcases mem_append.mp hmem with h | h
  · exact hfirst command h
  · exact hsecond command h

theorem cons_iff {command : DocumentCommand} {rest : List DocumentCommand} :
    EveryWritten property (command :: rest) ↔
      (∀ record, command.record = some record → property record) ∧ EveryWritten property rest := by
  rw [EveryWritten, forall_mem_cons]
  exact Iff.rfl

end EveryWritten

namespace CanvasKindRegistry

/-- Normalizing the record changes nothing. -/
def Keeps (registry : CanvasKindRegistry) : CanvasRecord → Prop
  | .node node => registry.normalizeNode node = .ok node
  | .edge edge => registry.normalizeEdge edge = .ok edge
  | .shape shape => registry.normalizeShape shape = .ok shape

/-- A normalized record is not changed again. -/
structure Idempotent (registry : CanvasKindRegistry) : Prop where
  nodes : ∀ node normalized, registry.normalizeNode node = .ok normalized →
    registry.Keeps (.node normalized)
  edges : ∀ edge normalized, registry.normalizeEdge edge = .ok normalized →
    registry.Keeps (.edge normalized)
  shapes : ∀ shape normalized, registry.normalizeShape shape = .ok normalized →
    registry.Keeps (.shape normalized)

/-- Normalizing a record with the one property gives a record with the other. -/
structure Establishes (registry : CanvasKindRegistry) (given result : CanvasRecord → Prop) :
    Prop where
  nodes : ∀ node normalized, given (.node node) → registry.normalizeNode node = .ok normalized →
    result (.node normalized)
  edges : ∀ edge normalized, given (.edge edge) → registry.normalizeEdge edge = .ok normalized →
    result (.edge normalized)
  shapes : ∀ shape normalized, given (.shape shape) →
    registry.normalizeShape shape = .ok normalized → result (.shape normalized)

variable {registry : CanvasKindRegistry} {given result : CanvasRecord → Prop}

theorem Idempotent.establishes (h : registry.Idempotent) :
    registry.Establishes (fun _ => True) registry.Keeps :=
  ⟨fun node normalized _ => h.nodes node normalized,
    fun edge normalized _ => h.edges edge normalized,
    fun shape normalized _ => h.shapes shape normalized⟩

theorem normalizeCommand_of_keeps {command : DocumentCommand}
    (h : ∀ record, command.record = some record → registry.Keeps record) :
    registry.normalizeCommand command = .ok command := by
  cases command with
  | insertNode node | updateNode node => exact map_eq_ok.mpr ⟨node, h (.node node) rfl, rfl⟩
  | insertEdge edge | updateEdge edge => exact map_eq_ok.mpr ⟨edge, h (.edge edge) rfl, rfl⟩
  | insertShape shape | updateShape shape => exact map_eq_ok.mpr ⟨shape, h (.shape shape) rfl, rfl⟩
  | _ => rfl

theorem Establishes.record (hregistry : registry.Establishes given result)
    {command normalized : DocumentCommand}
    (hgiven : ∀ record, command.record = some record → given record)
    (h : registry.normalizeCommand command = .ok normalized) {record : CanvasRecord}
    (hrecord : normalized.record = some record) : result record := by
  cases command with
  | insertNode node | updateNode node =>
    obtain ⟨kept, hkept, rfl⟩ := map_eq_ok.mp h
    cases hrecord
    exact hregistry.nodes node kept (hgiven (.node node) rfl) hkept
  | insertEdge edge | updateEdge edge =>
    obtain ⟨kept, hkept, rfl⟩ := map_eq_ok.mp h
    cases hrecord
    exact hregistry.edges edge kept (hgiven (.edge edge) rfl) hkept
  | insertShape shape | updateShape shape =>
    obtain ⟨kept, hkept, rfl⟩ := map_eq_ok.mp h
    cases hrecord
    exact hregistry.shapes shape kept (hgiven (.shape shape) rfl) hkept
  | _ =>
    cases h
    cases hrecord

variable {transaction : CanvasTransaction}

theorem normalizeTransaction_of_keeps (h : EveryWritten registry.Keeps transaction.commands) :
    registry.normalizeTransaction transaction = .ok transaction := by
  have hcommands : transaction.commands.mapM registry.normalizeCommand = .ok transaction.commands :=
    mapM_eq_ok_self fun command hmem => normalizeCommand_of_keeps (h command hmem)
  rw [normalizeTransaction, hcommands]
  rfl

variable {normalized : CanvasTransaction}

theorem Establishes.everyWritten (hregistry : registry.Establishes given result)
    (hgiven : EveryWritten given transaction.commands)
    (h : registry.normalizeTransaction transaction = .ok normalized) :
    EveryWritten result normalized.commands := by
  rw [normalizeTransaction, bind_eq_ok] at h
  obtain ⟨commands, hcommands, h⟩ := h
  rw [pure_eq_ok] at h
  subst h
  intro command hmem record hrecord
  obtain ⟨source, hsource, hnormalized⟩ := mem_of_mapM_eq_ok hcommands hmem
  exact hregistry.record (hgiven source hsource) hnormalized hrecord

theorem normalizeTransaction_metadata
    (h : registry.normalizeTransaction transaction = .ok normalized) :
    normalized.metadata = transaction.metadata := by
  rw [normalizeTransaction, bind_eq_ok] at h
  obtain ⟨commands, _, h⟩ := h
  rw [pure_eq_ok] at h
  rw [← h]

theorem keepsCommands_of_normalizeTransaction (hregistry : registry.Idempotent)
    (h : registry.normalizeTransaction transaction = .ok normalized) :
    EveryWritten registry.Keeps normalized.commands :=
  hregistry.establishes.everyWritten (fun _ _ _ _ => trivial) h

theorem validateRecord_of_normalizeRecord {ρ : Type} {kind : Option (CanvasKind ρ)}
    {mapData : (CanvasValue → CanvasValue) → ρ → ρ} {record : ρ}
    (h : normalizeRecord kind mapData record = .ok record) :
    validateRecord kind record = .ok () := by
  rw [validateRecord]
  rw [normalizeRecord] at h
  cases hschema : kind.bind (·.schema) with
  | none => rfl
  | some schema =>
    rw [hschema] at h
    rw [bind_eq_ok] at h
    obtain ⟨migrated, _, h⟩ := h
    rw [check_bind_eq_ok, pure_eq_ok] at h
    exact h.2 ▸ h.1

theorem openRegistry_keeps (record : CanvasRecord) : openRegistry.Keeps record := by
  have hcommand : ∀ command, openRegistry.normalizeCommand command = .ok command := by
    intro command
    have hkept := openRegistry_normalizeTransaction (.single command)
    rw [normalizeTransaction, bind_eq_ok] at hkept
    obtain ⟨commands, hcommands, hkept⟩ := hkept
    rw [pure_eq_ok] at hkept
    have hsame : commands = [command] := congrArg CanvasTransaction.commands hkept
    obtain ⟨source, hsource, heq⟩ := mem_of_mapM_eq_ok hcommands (hsame ▸ mem_singleton_self _)
    exact mem_singleton.mp hsource ▸ heq
  cases record with
  | node node =>
    obtain ⟨kept, hkept, heq⟩ := map_eq_ok.mp (hcommand (.insertNode node))
    exact insertNode.inj heq ▸ hkept
  | edge edge =>
    obtain ⟨kept, hkept, heq⟩ := map_eq_ok.mp (hcommand (.insertEdge edge))
    exact insertEdge.inj heq ▸ hkept
  | shape shape =>
    obtain ⟨kept, hkept, heq⟩ := map_eq_ok.mp (hcommand (.insertShape shape))
    exact insertShape.inj heq ▸ hkept

theorem openRegistry_idempotent : openRegistry.Idempotent :=
  ⟨fun _ normalized _ => openRegistry_keeps (.node normalized),
    fun _ normalized _ => openRegistry_keeps (.edge normalized),
    fun _ normalized _ => openRegistry_keeps (.shape normalized)⟩

end CanvasKindRegistry

namespace CanvasDocument

/-- The document stores the record. -/
def HasRecord (document : CanvasDocument) : CanvasRecord → Prop
  | .node node => ∃ id, document.nodes.get id = some node
  | .edge edge => ∃ id, document.edges.get id = some edge
  | .shape shape => ∃ id, document.shapes.get id = some shape

section HasRecord

variable {document after : CanvasDocument} {command : DocumentCommand} {record : CanvasRecord}

theorem get_insert_cases {ν : Type} {records : IndexMap String ν} {key id : String}
    {value found : ν} (h : (records.insert key value).get id = some found) :
    records.get id = some found ∨ found = value := by
  rw [get_insert] at h
  by_cases heq : key = id
  · rw [if_pos heq, Option.some.injEq] at h
    exact .inr h.symm
  · rw [if_neg heq] at h
    exact .inl h

/-- A command stores no record but the one it writes. -/
theorem hasRecord_effect (h : (document.effect command).HasRecord record) :
    document.HasRecord record ∨ command.record = some record := by
  cases record with
  | node record =>
    obtain ⟨id, hid⟩ := h
    cases command with
    | insertNode node | updateNode node =>
      rcases get_insert_cases hid with hold | rfl
      · exact .inl ⟨id, hold⟩
      · exact .inr rfl
    | removeNode gone => exact .inl ⟨id, (get_erase_eq_some_iff.mp hid).1⟩
    | _ => exact .inl ⟨id, hid⟩
  | edge record =>
    obtain ⟨id, hid⟩ := h
    cases command with
    | insertEdge edge | updateEdge edge =>
      rcases get_insert_cases hid with hold | rfl
      · exact .inl ⟨id, hold⟩
      · exact .inr rfl
    | removeEdge gone => exact .inl ⟨id, (get_erase_eq_some_iff.mp hid).1⟩
    | removeNode gone => exact .inl ⟨id, (get_retain_eq_some_iff.mp hid).1⟩
    | _ => exact .inl ⟨id, hid⟩
  | shape record =>
    obtain ⟨id, hid⟩ := h
    cases command with
    | insertShape shape | updateShape shape =>
      rcases get_insert_cases hid with hold | rfl
      · exact .inl ⟨id, hold⟩
      · exact .inr rfl
    | removeShape gone => exact .inl ⟨id, (get_erase_eq_some_iff.mp hid).1⟩
    | _ => exact .inl ⟨id, hid⟩

/-- The inverse of a command writes records the document has. -/
theorem hasRecord_of_inverseFor (hdraft : document.IsDraft)
    (happly : document.apply command = .ok after) {segment : List DocumentCommand}
    (hinverse : document.inverseFor command = .ok segment) {undo : DocumentCommand}
    (hmem : undo ∈ segment) (hrecord : undo.record = some record) : document.HasRecord record := by
  have hset : ∀ relation, (setCommand relation).record = none := by
    intro relation
    cases relation <;> rfl
  have hdrop : ∀ key, (dropCommand key).record = none := by
    intro key
    cases key <;> rfl
  cases isInverse_of_inverseFor hdraft happly hinverse with
  | insertNode | insertEdge | insertShape =>
    obtain rfl := mem_singleton.mp hmem
    cases hrecord
  | updateNode hold | updateEdge hold | removeEdge hold | updateShape hold | removeShape hold =>
    obtain rfl := mem_singleton.mp hmem
    cases hrecord
    exact ⟨_, hold⟩
  | removeNode hnode =>
    rcases mem_cons.mp hmem with rfl | hedge
    · cases hrecord
      exact ⟨_, hnode⟩
    · obtain ⟨edge, hincident, rfl⟩ := mem_map.mp hedge
      cases hrecord
      exact mem_values_iff.mp (mem_filter.mp hincident).1
  | @set relation _ _ hundo =>
    rcases hundo with ⟨previous, _, _, rfl | ⟨_, rfl⟩⟩ | ⟨_, rfl⟩
    · rw [mem_singleton.mp hmem, hset] at hrecord
      cases hrecord
    · cases hmem
    · rw [mem_singleton.mp hmem, hdrop] at hrecord
      cases hrecord
  | drop _ hundo =>
    rcases hundo with ⟨previous, _, _, rfl⟩ | ⟨_, rfl⟩
    · rw [mem_singleton.mp hmem, hset] at hrecord
      cases hrecord
    · cases hmem

end HasRecord

/-- Every record of the document has the property. -/
def EveryRecord (property : CanvasRecord → Prop) (document : CanvasDocument) : Prop :=
  ∀ record, document.HasRecord record → property record

/-- The registry keeps every record of the document. -/
abbrev SettledRecords (registry : CanvasKindRegistry) (document : CanvasDocument) : Prop :=
  EveryRecord registry.Keeps document

theorem SettledRecords.validateDocument {registry : CanvasKindRegistry} {document : CanvasDocument}
    (h : SettledRecords registry document) :
    registry.validateDocument document = .ok () := by
  rw [CanvasKindRegistry.validateDocument, check_bind_eq_ok, check_bind_eq_ok, forM_eq_ok,
    forM_eq_ok, forM_eq_ok]
  refine ⟨fun node hnode => ?_, fun edge hedge => ?_, fun shape hshape => ?_⟩
  · exact validateRecord_of_normalizeRecord (h (.node node) (mem_values_iff.mp hnode))
  · exact validateRecord_of_normalizeRecord (h (.edge edge) (mem_values_iff.mp hedge))
  · exact validateRecord_of_normalizeRecord (h (.shape shape) (mem_values_iff.mp hshape))

namespace EveryRecord

variable {property : CanvasRecord → Prop} {document : CanvasDocument}

variable (h : EveryRecord property document)

include h

theorem effect {command : DocumentCommand}
    (hcommand : ∀ record, command.record = some record → property record) :
    EveryRecord property (document.effect command) := by
  intro record hrecord
  rcases hasRecord_effect hrecord with hold | hwritten
  · exact h record hold
  · exact hcommand record hwritten

theorem effects {commands : List DocumentCommand} (hcommands : EveryWritten property commands) :
    EveryRecord property (document.effects commands) := by
  induction commands generalizing document with
  | nil => exact h
  | cons command rest ih =>
    obtain ⟨hcommand, hrest⟩ := EveryWritten.cons_iff.mp hcommands
    exact ih (h.effect hcommand) hrest

theorem pruneMissingRelations : EveryRecord property document.pruneMissingRelations := by
  intro record hrecord
  cases record <;> exact h _ hrecord

/-- The inverses of commands write records of the drafts. -/
theorem inverseSegments {commands inverse : List DocumentCommand} (hdraft : document.IsDraft)
    (hcommands : EveryWritten property commands)
    (hinverse : document.inverseSegments commands = .ok inverse) :
    EveryWritten property inverse := by
  induction commands generalizing document inverse with
  | nil =>
    cases hinverse
    exact fun command hmem => absurd hmem not_mem_nil
  | cons command rest ih =>
    obtain ⟨segment, draft, later, hsegment, hfirst, hlater, rfl⟩ :=
      inverseSegments_cons_ok_iff.mp hinverse
    obtain ⟨hcommand, hrest⟩ := EveryWritten.cons_iff.mp hcommands
    have hsettled := h.effect hcommand
    rw [← effect_of_apply hfirst] at hsettled
    refine (ih hsettled (apply_isDraft hdraft hfirst) hrest hlater).append ?_
    intro undo hmem record hrecord
    exact h record (hasRecord_of_inverseFor hdraft hfirst hsegment hmem hrecord)

end EveryRecord

end CanvasDocument

namespace CanvasMutationJournal

open CanvasDocument

variable {property : CanvasRecord → Prop} {document : CanvasDocument}
  {transaction : CanvasTransaction} {registry : CanvasKindRegistry}
  {prepared : CanvasPreparedMutation}

/-- The commands that complete an inverse write no record. -/
theorem completeInverse_everyWritten {previous current : CanvasDocument}
    {inverse completed : CanvasTransaction} (hinverse : EveryWritten property inverse.commands)
    (h : completeInverseRelationCommands previous current inverse = .ok completed) :
    EveryWritten property completed.commands := by
  have hrelations : ∀ changes : List CanvasRelationChange,
      EveryWritten property (changes.map relationChangeToCommand) := by
    intro changes command hmem record hrecord
    obtain ⟨change, _, rfl⟩ := mem_map.mp hmem
    cases change with
    | upsert relation | delete relation => cases relation <;> cases hrecord
  rw [completeInverseRelationCommands, bind_eq_ok] at h
  obtain ⟨restored, _, h⟩ := h
  rw [check_bind_eq_ok] at h
  obtain ⟨_, h⟩ := h
  dsimp only at h
  split at h
  · rw [pure_eq_ok] at h
    exact h ▸ hinverse
  · rw [bind_eq_ok] at h
    obtain ⟨_, _, h⟩ := h
    rw [check_bind_eq_ok, pure_eq_ok] at h
    exact h.2 ▸ hinverse.append (hrelations _)

/-- What holds of the records of a document and of those a transaction writes holds
of the records of the result and of those its inverse writes. -/
theorem prepare_everyRecord (hvalid : document.Valid) (hrecords : EveryRecord property document)
    (hwritten : ∀ normalized, registry.normalizeTransaction transaction = .ok normalized →
      EveryWritten property normalized.commands)
    (h : prepareWithKindRegistry document transaction registry = .ok prepared) :
    EveryRecord property prepared.document ∧
      EveryWritten property prepared.committed.inverse.commands := by
  obtain ⟨normalized, inverse, draft, hnormalized, hinverse, happly, hdocument, _, _, _, hcomplete,
    _⟩ := prepare_ok_steps h
  have hcommands := hwritten normalized hnormalized
  constructor
  · rw [hdocument, effects_of_applyAll happly]
    exact (hrecords.effects hcommands).pruneMissingRelations
  · exact completeInverse_everyWritten (hrecords.inverseSegments hvalid.isDraft hcommands hinverse)
      hcomplete

/-- Commits keep a settled document settled, and their inverses are kept. -/
theorem prepare_settled (hregistry : registry.Idempotent) (hvalid : document.Valid)
    (hsettled : SettledRecords registry document)
    (h : prepareWithKindRegistry document transaction registry = .ok prepared) :
    SettledRecords registry prepared.document ∧
      EveryWritten registry.Keeps prepared.committed.inverse.commands :=
  prepare_everyRecord hvalid hsettled (fun _ => keepsCommands_of_normalizeTransaction hregistry) h

end CanvasMutationJournal

end OpenGpui.Canvas
