/-
The changes a commit reports, read as upserts and deletions: played on the document before
the commit they lead to the document after it, and they name no record that stayed equal.
-/
import OpenGpui.Canvas.Alike
import OpenGpui.Canvas.Diff

namespace OpenGpui.Canvas

open List CanvasRecordRelations IndexMap

open Checked

def CanvasRecord.id : CanvasRecord → CanvasRecordId
  | .node record => .node record.id
  | .edge record => .edge record.id
  | .shape record => .shape record.id

def CanvasRecordChange.id : CanvasRecordChange → CanvasRecordId
  | .upsert record => record.id
  | .delete id => id

/-- What a change leaves under the id it names. -/
def CanvasRecordChange.outcome : CanvasRecordChange → Option CanvasRecord
  | .upsert record => some record
  | .delete _ => none

namespace CanvasRecordRelations

variable {relations : CanvasRecordRelations} {gone new : List CanvasRecordRelation}

/-- One reported relation change. -/
def replay (relations : CanvasRecordRelations) : CanvasRelationChange → CanvasRecordRelations
  | .upsert relation => relations.upsert relation
  | .delete relation => relations.drop relation.key

theorem foldl_drop (hkeyed : relations.Keyed) :
    ((gone.map .delete).foldl replay relations).Keyed ∧ ∀ relation,
      ((gone.map .delete).foldl replay relations).Holds relation ↔
        relations.Holds relation ∧ ∀ other ∈ gone, relation.key ≠ other.key := by
  induction gone generalizing relations with
  | nil => exact ⟨hkeyed, fun relation => by simp⟩
  | cons first rest ih =>
    obtain ⟨hrest, hholds⟩ := ih (hkeyed.drop first.key)
    refine ⟨hrest, fun relation => ?_⟩
    rw [map_cons, foldl_cons, replay, hholds, holds_drop_iff hkeyed, forall_mem_cons, and_assoc]

theorem foldl_upsert (hkeyed : relations.Keyed)
    (hnew : ∀ first ∈ new, ∀ second ∈ new, first.key = second.key → first = second) :
    ((new.map .upsert).foldl replay relations).Keyed ∧ ∀ relation,
      ((new.map .upsert).foldl replay relations).Holds relation ↔
        relation ∈ new ∨ relations.Holds relation ∧ ∀ other ∈ new, relation.key ≠ other.key := by
  induction new generalizing relations with
  | nil => exact ⟨hkeyed, fun relation => by simp⟩
  | cons first rest ih =>
    have hrestNew : ∀ one ∈ rest, ∀ other ∈ rest, one.key = other.key → one = other :=
      fun one hone other hother => hnew one (mem_cons_of_mem _ hone) other
        (mem_cons_of_mem _ hother)
    obtain ⟨hrest, hholds⟩ := ih (hkeyed.upsert first) hrestNew
    refine ⟨hrest, fun relation => ?_⟩
    rw [map_cons, foldl_cons, replay, hholds, holds_upsert_iff hkeyed, mem_cons, forall_mem_cons]
    constructor
    · rintro (hin | ⟨rfl | ⟨hheld, hne⟩, hothers⟩)
      · exact .inl (.inr hin)
      · exact .inl (.inl rfl)
      · exact .inr ⟨hheld, hne, hothers⟩
    · rintro ((rfl | hin) | ⟨hheld, hne, hothers⟩)
      · by_cases hlater : ∃ other ∈ rest, relation.key = other.key
        · obtain ⟨other, hother, hkey⟩ := hlater
          have heq := hnew relation mem_cons_self other (mem_cons_of_mem _ hother) hkey
          exact .inl (heq ▸ hother)
        · push Not at hlater
          exact .inr ⟨.inl rfl, hlater⟩
      · exact .inl hin
      · exact .inr ⟨.inr ⟨hheld, hne⟩, hothers⟩

/-- The parents of the first relations that the second ones do not have. -/
def parentsBeyond (relations other : CanvasRecordRelations) : List CanvasRecordRelation :=
  (relations.parents.filter fun relation =>
    other.parentOf relation.child != some relation.parent).map .parent

def groupsBeyond (relations other : CanvasRecordRelations) : List CanvasRecordRelation :=
  (relations.groups.filter fun relation => !other.containsRelation (.group relation)).map .group

def bindingsBeyond (relations other : CanvasRecordRelations) : List CanvasRecordRelation :=
  (relations.bindings.filter fun relation =>
    other.binding relation.id != some relation).map .binding

section Beyond

variable {other : CanvasRecordRelations} {relation : CanvasRecordRelation}

theorem mem_parentsBeyond_iff (hother : other.Keyed) : relation ∈ relations.parentsBeyond other ↔
      (∃ parent, relation = .parent parent) ∧ relations.Holds relation ∧
        ¬ other.Holds relation :=
  mem_map_filter_iff (fun _ => Iff.rfl) fun _ => by simp [parentOf_eq_some_iff hother]

theorem mem_groupsBeyond_iff (hother : other.Keyed) : relation ∈ relations.groupsBeyond other ↔
      (∃ group, relation = .group group) ∧ relations.Holds relation ∧ ¬ other.Holds relation :=
  mem_map_filter_iff (fun _ => Iff.rfl) fun _ => by
    rw [Bool.not_eq_true', ← Bool.not_eq_true, containsRelation_iff hother]

theorem mem_bindingsBeyond_iff (hother : other.Keyed) : relation ∈ relations.bindingsBeyond other ↔
      (∃ binding, relation = .binding binding) ∧ relations.Holds relation ∧
        ¬ other.Holds relation :=
  mem_map_filter_iff (fun _ => Iff.rfl) fun _ => by simp [binding_eq_some_iff hother]

end Beyond

/-- Changes for relations that are gone, then for new ones. -/
def changesOf (gone new : List CanvasRecordRelation) : List CanvasRelationChange :=
  gone.map .delete ++ new.map .upsert

section Kind

variable {current previous : CanvasRecordRelations} {kind : CanvasRecordRelation → Prop}

/-- Playing the changes of one kind leads to the new relations of that kind and leaves the
others alone, since relations with one key are of one kind. -/
theorem replay_kind (hkeyed : relations.Keyed) (hcurrent : current.Keyed)
    (hprevious : previous.Keyed)
    (hkind : ∀ first second, first.key = second.key → kind second → kind first)
    (hgone : ∀ relation, relation ∈ gone ↔
      kind relation ∧ previous.Holds relation ∧ ¬ current.Holds relation)
    (hnew : ∀ relation, relation ∈ new ↔
      kind relation ∧ current.Holds relation ∧ ¬ previous.Holds relation)
    (hsame : ∀ relation, kind relation → (relations.Holds relation ↔ previous.Holds relation)) :
    ((changesOf gone new).foldl replay relations).Keyed ∧ (∀ relation, kind relation →
        (((changesOf gone new).foldl replay relations).Holds relation ↔ current.Holds relation)) ∧
      ∀ relation, ¬ kind relation → (((changesOf gone new).foldl replay relations).Holds relation ↔
          relations.Holds relation) := by
  have hagree : ∀ first ∈ new, ∀ second ∈ new, first.key = second.key → first = second :=
    fun first hfirst second hsecond =>
      hcurrent.eq_of_key ((hnew first).mp hfirst).2.1 ((hnew second).mp hsecond).2.1
  obtain ⟨hdropped, hholds⟩ := @foldl_drop relations gone hkeyed
  obtain ⟨hput, hboth⟩ := foldl_upsert hdropped hagree
  rw [changesOf, foldl_append]
  refine ⟨hput, fun relation hrelation => ?_, fun relation hother => ?_⟩
  · rw [hboth, hholds, hsame relation hrelation]
    constructor
    · rintro (hin | ⟨⟨hheld, hkept⟩, _⟩)
      · exact ((hnew relation).mp hin).2.1
      · by_contra hnot
        exact hkept relation ((hgone relation).mpr ⟨hrelation, hheld, hnot⟩) rfl
    · intro hheld
      by_cases hold : previous.Holds relation
      · refine .inr ⟨⟨hold, fun other hother hkey => ?_⟩, fun other hother hkey => ?_⟩
        · obtain ⟨_, hprev, hnot⟩ := (hgone other).mp hother
          exact hnot (hprevious.eq_of_key hold hprev hkey ▸ hheld)
        · obtain ⟨_, hcurr, hnot⟩ := (hnew other).mp hother
          exact hnot (hcurrent.eq_of_key hheld hcurr hkey ▸ hold)
      · exact .inl ((hnew relation).mpr ⟨hrelation, hheld, hold⟩)
  · rw [hboth, hholds]
    constructor
    · rintro (hin | ⟨⟨hheld, _⟩, _⟩)
      · exact absurd ((hnew relation).mp hin).1 hother
      · exact hheld
    · refine fun hheld => .inr ⟨⟨hheld, fun other hgoneOther hkey => ?_⟩, ?_⟩
      · exact hother (hkind relation other hkey ((hgone other).mp hgoneOther).1)
      · exact fun other hnewOther hkey =>
          hother (hkind relation other hkey ((hnew other).mp hnewOther).1)

end Kind

variable {current previous : CanvasRecordRelations}

theorem kind_of_key {first second : CanvasRecordRelation} (hkey : first.key = second.key) :
    ((∃ parent, second = .parent parent) → ∃ parent, first = .parent parent) ∧
      ((∃ group, second = .group group) → ∃ group, first = .group group) ∧
        ((∃ binding, second = .binding binding) → ∃ binding, first = .binding binding) := by
  cases first <;> cases second <;> simp_all [CanvasRecordRelation.key]

/-- Playing all changes on the old relations leads to the new ones. -/
theorem replay_changes (hcurrent : current.Keyed) (hprevious : previous.Keyed) :
    ((changesOf (previous.parentsBeyond current) (current.parentsBeyond previous) ++
        changesOf (previous.groupsBeyond current) (current.groupsBeyond previous) ++
        changesOf (previous.bindingsBeyond current) (current.bindingsBeyond previous)).foldl
      replay previous).Keyed ∧
    ∀ relation, ((changesOf (previous.parentsBeyond current) (current.parentsBeyond previous) ++
        changesOf (previous.groupsBeyond current) (current.groupsBeyond previous) ++
        changesOf (previous.bindingsBeyond current) (current.bindingsBeyond previous)).foldl
      replay previous).Holds relation ↔ current.Holds relation := by
  rw [foldl_append, foldl_append]
  obtain ⟨hparentKeyed, hparents, hparentOthers⟩ := replay_kind hprevious hcurrent hprevious
    (fun _ _ hkey => (kind_of_key hkey).1) (fun _ => mem_parentsBeyond_iff hcurrent)
    (fun _ => mem_parentsBeyond_iff hprevious) fun _ _ => Iff.rfl
  obtain ⟨hgroupKeyed, hgroups, hgroupOthers⟩ := replay_kind hparentKeyed hcurrent hprevious
    (fun _ _ hkey => (kind_of_key hkey).2.1) (fun _ => mem_groupsBeyond_iff hcurrent)
    (fun _ => mem_groupsBeyond_iff hprevious)
    (by
      rintro relation ⟨group, rfl⟩
      exact hparentOthers _ (by simp))
  obtain ⟨hbindingKeyed, hbindings, hbindingOthers⟩ := replay_kind hgroupKeyed hcurrent hprevious
    (fun _ _ hkey => (kind_of_key hkey).2.2) (fun _ => mem_bindingsBeyond_iff hcurrent)
    (fun _ => mem_bindingsBeyond_iff hprevious)
    (by
      rintro relation ⟨binding, rfl⟩
      exact (hgroupOthers _ (by simp)).trans (hparentOthers _ (by simp)))
  refine ⟨hbindingKeyed, fun relation => ?_⟩
  cases relation with
  | parent parent =>
    exact (hbindingOthers _ (by simp)).trans
      ((hgroupOthers _ (by simp)).trans (hparents _ ⟨parent, rfl⟩))
  | group group => exact (hbindingOthers _ (by simp)).trans (hgroups _ ⟨group, rfl⟩)
  | binding binding => exact hbindings _ ⟨binding, rfl⟩

end CanvasRecordRelations

namespace CanvasDocument

variable {document previous : CanvasDocument} {id : CanvasRecordId}

theorem relationChangesFromDiff_eq (document previous : CanvasDocument) :
    relationChangesFromDiff document previous =
      changesOf (previous.relations.parentsBeyond document.relations)
          (document.relations.parentsBeyond previous.relations) ++
        changesOf (previous.relations.groupsBeyond document.relations)
          (document.relations.groupsBeyond previous.relations) ++
        changesOf (previous.relations.bindingsBeyond document.relations)
          (document.relations.bindingsBeyond previous.relations) := by
  simp only [relationChangesFromDiff, changesOf, parentsBeyond, groupsBeyond,
    bindingsBeyond, map_map, append_assoc]
  rfl

/-- One reported record change. -/
def replayRecord (document : CanvasDocument) : CanvasRecordChange → CanvasDocument
  | .upsert (.node node) => { document with nodes := document.nodes.insert node.id node }
  | .upsert (.edge edge) => { document with edges := document.edges.insert edge.id edge }
  | .upsert (.shape shape) => { document with shapes := document.shapes.insert shape.id shape }
  | .delete (.node id) => { document with nodes := document.nodes.erase id }
  | .delete (.edge id) => { document with edges := document.edges.erase id }
  | .delete (.shape id) => { document with shapes := document.shapes.erase id }

/-- The changes of a commit, played on a document. -/
def replay (document : CanvasDocument) (committed : CanvasCommittedMutation) : CanvasDocument :=
  let document := committed.recordChanges.foldl replayRecord document
  { document with
    relations := committed.relationChanges.foldl CanvasRecordRelations.replay document.relations }

theorem recordFromDocument_replayRecord (document : CanvasDocument) (change : CanvasRecordChange)
    (id : CanvasRecordId) : recordFromDocument (document.replayRecord change) id =
      if change.id = id then change.outcome else recordFromDocument document id := by
  rcases change with (node | edge | shape) | (changed | changed | changed)
  all_goals cases id <;>
      simp only [replayRecord, recordFromDocument, CanvasRecordChange.id, CanvasRecord.id,
        CanvasRecordChange.outcome, get_insert, get_erase, CanvasRecordId.node.injEq,
        CanvasRecordId.edge.injEq, CanvasRecordId.shape.injEq, reduceCtorEq, if_false]
  all_goals split <;> rfl

/-- Changes that agree with a document bring its records under the ids they name. -/
theorem recordFromDocument_foldl {changes : List CanvasRecordChange}
    (hagree : ∀ change ∈ changes, change.outcome = recordFromDocument previous change.id) :
    recordFromDocument (changes.foldl replayRecord document) id =
      if id ∈ changes.map CanvasRecordChange.id then recordFromDocument previous id
      else recordFromDocument document id := by
  induction changes generalizing document with
  | nil => simp
  | cons change rest ih =>
    rw [foldl_cons, ih fun other hother => hagree other (mem_cons_of_mem _ hother),
      recordFromDocument_replayRecord, map_cons]
    by_cases hrest : id ∈ rest.map CanvasRecordChange.id
    · rw [if_pos hrest, if_pos (mem_cons_of_mem _ hrest)]
    · rw [if_neg hrest]
      by_cases hid : change.id = id
      · rw [if_pos hid, if_pos (by rw [hid]; exact mem_cons_self), hagree change mem_cons_self, hid]
      · rw [if_neg hid, if_neg]
        rw [mem_cons, not_or]
        exact ⟨Ne.symm hid, hrest⟩

theorem mem_inserted_iff : id ∈ (document.diffAgainst previous).inserted ↔
    (∃ new, recordFromDocument document id = some new) ∧ recordFromDocument previous id = none := by
  rw [diffAgainst_eq]
  cases id <;> simp [mem_newIds_iff, recordFromDocument]

theorem mem_removed_iff : id ∈ (document.diffAgainst previous).removed ↔
    (∃ old, recordFromDocument previous id = some old) ∧ recordFromDocument document id = none := by
  rw [diffAgainst_eq]
  cases id <;> simp [mem_goneIds_iff, recordFromDocument]

theorem exists_record_iff {ρ : Type} {tag : ρ → CanvasRecord} {first second : Option ρ} :
    (∃ old new, first = some old ∧ second = some new ∧ (tag old == tag new) = false) ↔
      ∃ old new, first.map tag = some old ∧ second.map tag = some new ∧ (old == new) = false := by
  simp only [Option.map_eq_some_iff]
  constructor
  · rintro ⟨old, new, hold, hnew, hne⟩
    exact ⟨_, _, ⟨old, hold, rfl⟩, ⟨new, hnew, rfl⟩, hne⟩
  · rintro ⟨_, _, ⟨old, hold, rfl⟩, ⟨new, hnew, rfl⟩, hne⟩
    exact ⟨old, new, hold, hnew, hne⟩

theorem mem_updated_iff : id ∈ (document.diffAgainst previous).updated ↔
    ∃ old new, recordFromDocument previous id = some old ∧
      recordFromDocument document id = some new ∧ (old == new) = false := by
  rw [diffAgainst_eq]
  cases id with
  | node id =>
    simp only [mem_append, mem_map, CanvasRecordId.node.injEq, exists_eq_right,
      reduceCtorEq, and_false, exists_false, or_false, mem_changedIds_iff, recordFromDocument]
    exact @exists_record_iff _ .node _ _
  | edge id =>
    simp only [mem_append, mem_map, CanvasRecordId.edge.injEq, exists_eq_right,
      reduceCtorEq, and_false, exists_false, or_false, false_or, mem_changedIds_iff,
      recordFromDocument]
    exact @exists_record_iff _ .edge _ _
  | shape id =>
    simp only [mem_append, mem_map, CanvasRecordId.shape.injEq, exists_eq_right,
      reduceCtorEq, and_false, exists_false, false_or, mem_changedIds_iff, recordFromDocument]
    exact @exists_record_iff _ .shape _ _

theorem WellKeyed.recordFromDocument_id (hkeyed : document.WellKeyed) {record : CanvasRecord}
    (h : recordFromDocument document id = some record) : record.id = id := by
  cases id with
  | node id =>
    obtain ⟨node, hget, rfl⟩ := Option.map_eq_some_iff.mp h
    exact congrArg CanvasRecordId.node (hkeyed.nodes id node hget)
  | edge id =>
    obtain ⟨edge, hget, rfl⟩ := Option.map_eq_some_iff.mp h
    exact congrArg CanvasRecordId.edge (hkeyed.edges id edge hget)
  | shape id =>
    obtain ⟨shape, hget, rfl⟩ := Option.map_eq_some_iff.mp h
    exact congrArg CanvasRecordId.shape (hkeyed.shapes id shape hget)

variable {change : CanvasRecordChange}

/-- A change that is reported comes from one of the three lists of a diff. -/
theorem mem_recordChanges_iff {diff : CanvasDocumentDiff} :
    change ∈ recordChangesFromDiff document diff ↔ (∃ record, change = .upsert record ∧
        ∃ id, (id ∈ diff.inserted ∨ id ∈ diff.updated) ∧
          recordFromDocument document id = some record) ∨
      ∃ id ∈ diff.removed, change = .delete id := by
  simp only [recordChangesFromDiff, mem_append, mem_map, mem_filterMap]
  constructor
  · rintro ((⟨record, ⟨id, hid, hrecord⟩, rfl⟩ | ⟨record, ⟨id, hid, hrecord⟩, rfl⟩) |
      ⟨id, hid, rfl⟩)
    · exact .inl ⟨record, rfl, id, .inl hid, hrecord⟩
    · exact .inl ⟨record, rfl, id, .inr hid, hrecord⟩
    · exact .inr ⟨id, hid, rfl⟩
  · rintro (⟨record, rfl, id, hid | hid, hrecord⟩ | ⟨id, hid, rfl⟩)
    · exact .inl (.inl ⟨record, ⟨id, hid, hrecord⟩, rfl⟩)
    · exact .inl (.inr ⟨record, ⟨id, hid, hrecord⟩, rfl⟩)
    · exact .inr ⟨id, hid, rfl⟩

/-- Every reported change says what the new document has. -/
theorem recordChanges_agree (hkeyed : document.WellKeyed)
    (h : change ∈ recordChangesFromDiff document (document.diffAgainst previous)) :
    change.outcome = recordFromDocument document change.id := by
  rcases mem_recordChanges_iff.mp h with ⟨record, rfl, id, _, hrecord⟩ | ⟨id, hid, rfl⟩
  · have hid : record.id = id := hkeyed.recordFromDocument_id hrecord
    rw [CanvasRecordChange.outcome, CanvasRecordChange.id, hid, hrecord]
  · exact (mem_removed_iff.mp hid).2.symm

/-- The ids that are reported are those of records that were made, changed or removed. -/
theorem mem_recordChanges_ids_iff (hkeyed : document.WellKeyed) :
    id ∈ (recordChangesFromDiff document (document.diffAgainst previous)).map
        CanvasRecordChange.id ↔
      id ∈ (document.diffAgainst previous).inserted ∨ id ∈ (document.diffAgainst previous).updated ∨
          id ∈ (document.diffAgainst previous).removed := by
  rw [mem_map]
  constructor
  · rintro ⟨change, hchange, rfl⟩
    rcases mem_recordChanges_iff.mp hchange with ⟨record, rfl, id, hid, hrecord⟩ | ⟨id, hid, rfl⟩
    · have hname : record.id = id := hkeyed.recordFromDocument_id hrecord
      rw [CanvasRecordChange.id, hname]
      tauto
    · exact .inr (.inr hid)
  · have hstored : ∀ record, recordFromDocument document id = some record →
        (id ∈ (document.diffAgainst previous).inserted ∨
          id ∈ (document.diffAgainst previous).updated) →
        ∃ change ∈ recordChangesFromDiff document (document.diffAgainst previous),
          change.id = id := by
      intro record hrecord hid
      exact ⟨.upsert record, mem_recordChanges_iff.mpr (.inl ⟨record, rfl, id, hid, hrecord⟩),
        hkeyed.recordFromDocument_id hrecord⟩
    rintro (hid | hid | hid)
    · obtain ⟨⟨record, hrecord⟩, _⟩ := mem_inserted_iff.mp hid
      exact hstored record hrecord (.inl hid)
    · obtain ⟨_, record, _, hrecord, _⟩ := mem_updated_iff.mp hid
      exact hstored record hrecord (.inr hid)
    · exact ⟨.delete id, mem_recordChanges_iff.mpr (.inr ⟨id, hid, rfl⟩), rfl⟩

/-- Where nothing is reported the documents have no record, or equal ones. -/
theorem alike_of_not_reported (hinserted : id ∉ (document.diffAgainst previous).inserted)
    (hupdated : id ∉ (document.diffAgainst previous).updated)
    (hremoved : id ∉ (document.diffAgainst previous).removed) :
    (recordFromDocument previous id = none ∧ recordFromDocument document id = none) ∨
      ∃ old new, recordFromDocument previous id = some old ∧
        recordFromDocument document id = some new ∧ (old == new) = true := by
  rw [mem_inserted_iff] at hinserted
  rw [mem_updated_iff] at hupdated
  rw [mem_removed_iff] at hremoved
  push Not at hinserted hupdated hremoved
  cases hold : recordFromDocument previous id with
  | none =>
    cases hnew : recordFromDocument document id with
    | none => exact .inl ⟨rfl, rfl⟩
    | some new => exact absurd hold (hinserted ⟨new, hnew⟩)
  | some old =>
    cases hnew : recordFromDocument document id with
    | none => exact absurd hnew (hremoved ⟨old, hold⟩)
    | some new =>
      refine .inr ⟨old, new, rfl, rfl, ?_⟩
      simpa using hupdated old new hold hnew

/-- Record changes leave everything but the records alone. -/
theorem foldl_replayRecord_frame (document : CanvasDocument) (changes : List CanvasRecordChange) :
    (changes.foldl replayRecord document).formatVersion = document.formatVersion ∧
      (changes.foldl replayRecord document).metadata = document.metadata ∧
      (changes.foldl replayRecord document).relations = document.relations := by
  induction changes generalizing document with
  | nil => exact ⟨rfl, rfl, rfl⟩
  | cons change rest ih =>
    obtain ⟨hversion, hmetadata, hrelations⟩ := ih (document.replayRecord change)
    have hstep : (document.replayRecord change).formatVersion = document.formatVersion ∧
        (document.replayRecord change).metadata = document.metadata ∧
        (document.replayRecord change).relations = document.relations := by
      rcases change with (node | edge | shape) | (id | id | id) <;> exact ⟨rfl, rfl, rfl⟩
    exact ⟨hversion.trans hstep.1, hmetadata.trans hstep.2.1, hrelations.trans hstep.2.2⟩

/-- The records under one id are the same, or compare equal. -/
def AlikeRecords (first second : Option CanvasRecord) : Prop :=
  first = second ∨ ∃ old new, first = some old ∧ second = some new ∧ (old == new) = true

theorem alikeMaps_of_records {ν : Type} [BEq ν] {m n : IndexMap String ν} {wrap : ν → CanvasRecord}
    (hwrap : Function.Injective wrap) (hequal : ∀ first second, (wrap first == wrap second) = true →
      (first == second) = true)
    (h : ∀ key, AlikeRecords ((m.get key).map wrap) ((n.get key).map wrap)) : m.AlikeMaps n := by
  constructor
  · intro key
    rw [containsKey, containsKey]
    have hsome : ∀ value : Option ν, value.isSome = (value.map wrap).isSome := fun value => by
      rw [Option.isSome_map]
    rw [hsome, hsome (n.get key)]
    rcases h key with heq | ⟨old, new, hold, hnew, _⟩
    · rw [heq]
    · rw [hold, hnew]
      rfl
  · intro key left right hleft hright
    have hkey := h key
    rw [hleft, hright] at hkey
    rcases hkey with heq | ⟨old, new, hold, hnew, hsame⟩
    · exact .inl (hwrap (Option.some.inj heq))
    · cases hold
      cases hnew
      exact .inr (hequal left right hsame)

end CanvasDocument

namespace CanvasMutationJournal

open CanvasDocument

variable {document after : CanvasDocument} {transaction : CanvasTransaction}
  {kindRegistry : CanvasKindRegistry} {committed : CanvasCommittedMutation}

/-- The changes a prepared mutation reports are those between the two documents. -/
theorem prepare_changes {prepared : CanvasPreparedMutation}
    (h : prepareWithKindRegistry document transaction kindRegistry = .ok prepared) :
    prepared.committed.recordChanges =
        recordChangesFromDiff prepared.document (prepared.document.diffAgainst document) ∧
      prepared.committed.relationChanges = relationChangesFromDiff prepared.document document := by
  simp only [prepareWithKindRegistry, bind_eq_ok, pure_eq_ok] at h
  obtain ⟨_, _, _, _, _, _, _, _, _, _, _, _, rfl⟩ := h
  exact ⟨rfl, rfl⟩

/-- The changes reported with a commit, played on the document before it, lead to the
document after it, and none of them names a record that is equal in both. -/
theorem committed_changes_exact (hvalid : document.Valid)
    (h : commitWithKindRegistry document transaction kindRegistry = (.ok committed, after)) :
    (document.replay committed).AlikeDocuments after
    ∧ ((after == after) = true → (document.replay committed == after) = true)
    ∧ ∀ id old new, recordFromDocument document id = some old →
        recordFromDocument after id = some new → (old == new) = true →
          id ∉ committed.recordChanges.map CanvasRecordChange.id := by
  have hprepare := commitWithKindRegistry_ok_iff.mp h
  have hafter : after.Valid := prepare_valid hvalid hprepare
  obtain ⟨hrecordChanges, hrelationChanges⟩ := prepare_changes hprepare
  obtain ⟨_, _, draft, _, _, happly, hdocument, _⟩ := prepare_ok_steps hprepare
  dsimp only at hrecordChanges hrelationChanges hdocument
  have hdraft := effects_of_applyAll happly
  have hkept := foldl_replayRecord_frame document committed.recordChanges
  have hversion : document.formatVersion = after.formatVersion := by
    rw [hdocument, pruneMissingRelations, hdraft, effects_formatVersion]
  have hmetadata : document.metadata = after.metadata := by
    rw [hdocument, pruneMissingRelations, hdraft, effects_metadata]
  have hrecords : ∀ id, AlikeRecords (recordFromDocument (committed.recordChanges.foldl replayRecord
      document) id) (recordFromDocument after id) := by
    intro id
    rw [hrecordChanges, recordFromDocument_foldl fun change hchange =>
      recordChanges_agree hafter.wellKeyed hchange]
    by_cases hreported : id ∈ (recordChangesFromDiff after (after.diffAgainst document)).map
        CanvasRecordChange.id
    · rw [if_pos hreported]
      exact .inl rfl
    · rw [if_neg hreported]
      rw [mem_recordChanges_ids_iff hafter.wellKeyed, not_or, not_or] at hreported
      obtain ⟨hinserted, hupdated, hremoved⟩ := hreported
      rcases alike_of_not_reported hinserted hupdated hremoved with
        ⟨hold, hnew⟩ | hequal
      · exact .inl (hold.trans hnew.symm)
      · exact .inr hequal
  have hrelations := replay_changes hafter.isDraft.keyed hvalid.isDraft.keyed
  rw [← relationChangesFromDiff_eq, ← hrelationChanges, ← hkept.2.2] at hrelations
  have halike : (document.replay committed).AlikeDocuments after := by
    refine ⟨hkept.1.trans hversion, hkept.2.1.trans hmetadata, ?_, ?_, ?_, hrelations.2⟩
    · exact alikeMaps_of_records (fun _ _ => CanvasRecord.node.inj) (fun _ _ => id)
        fun key => hrecords (.node key)
    · exact alikeMaps_of_records (fun _ _ => CanvasRecord.edge.inj) (fun _ _ => id)
        fun key => hrecords (.edge key)
    · exact alikeMaps_of_records (fun _ _ => CanvasRecord.shape.inj) (fun _ _ => id)
        fun key => hrecords (.shape key)
  refine ⟨halike, halike.beq hrelations.1 hafter.isDraft.keyed, ?_⟩
  intro id old new hold hnew hequal hreported
  rw [hrecordChanges, mem_recordChanges_ids_iff hafter.wellKeyed, mem_inserted_iff,
    mem_updated_iff, mem_removed_iff, hold, hnew] at hreported
  rcases hreported with ⟨_, hnone⟩ | ⟨old', new', hold', hnew', hne⟩ | ⟨_, hnone⟩
  · cases hnone
  · cases hold'
    cases hnew'
    rw [hequal] at hne
    cases hne
  · cases hnone

end CanvasMutationJournal

namespace UndoWitness

open CanvasMutationJournal

/-- A node taken away with its edge and their relations, in a commit with another removal. -/
theorem committed_changes_exact_removal : ∃ committed after,
    commit framed removal = (.ok committed, after) ∧ (framed.replay committed == after) = true := by
  have hcommit : (commit framed removal).1.toOption.isSome = true := by decide
  have hself : ((commit framed removal).2 == (commit framed removal).2) = true := by
    decide
  obtain ⟨committed, hcommitted⟩ := commit_of_isSome hcommit
  obtain ⟨_, hequal, _⟩ := committed_changes_exact framed_valid hcommitted
  exact ⟨committed, _, hcommitted, hequal hself⟩

end UndoWitness

end OpenGpui.Canvas
