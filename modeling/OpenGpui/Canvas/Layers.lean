/-
The layers of canvas records.  A z-order command moves the selected records of a stack;
when that changes the stack, all its records are numbered anew, from a base that leaves
room for them below the greatest z index.
-/
import OpenGpui.Canvas.Record
import OpenGpui.Library.Lifting

namespace OpenGpui.Canvas

open Int32 Lifting List

inductive CanvasZOrderCommand where
  | bringToFront
  | bringForward
  | sendBackward
  | sendToBack

structure CanvasLayerRecord where
  id : CanvasRecordId
  zIndex : Int32
  ordinal : Nat
  selected : Bool

namespace CanvasZOrderCommand

variable {α : Type} (command : CanvasZOrderCommand) (chosen : α → Bool) (entries : List α)

/-- Where a command puts the chosen entries of a stack, whose last entry is the front. -/
def reorder : List α :=
  match command with
  | bringToFront => toEnd chosen entries
  | sendToBack => toStart chosen entries
  | bringForward => raise chosen entries
  | sendBackward => lower chosen entries

/-- The chosen entries are already where the command would have them. -/
def Settled : Prop :=
  match command with
  | bringToFront | bringForward => Lifting.AtEnd chosen entries
  | sendToBack | sendBackward => Lifting.AtStart chosen entries

/-- Each chosen entry comes to stand after at most one more of the others. -/
def PassesOne [DecidableEq α] (before after : List α) : Prop :=
  ∀ entry ∈ before, chosen entry = true → ∃ passed : List α, passed.length ≤ 1 ∧
    othersBefore chosen after entry = othersBefore chosen before entry ++ passed

/-- What the command promises: all chosen entries on one side of the others, or at most
one of the others passed in the direction of the command. -/
def Moves [DecidableEq α] (before after : List α) : Prop :=
  match command with
  | bringToFront => Lifting.AtEnd chosen after
  | sendToBack => Lifting.AtStart chosen after
  | bringForward => PassesOne chosen before after
  | sendBackward => PassesOne chosen before.reverse after.reverse

theorem reorder_keepsOrders :
    Lifting.KeepsOrders chosen entries (command.reorder chosen entries) := by
  cases command with
  | bringToFront => exact toEnd_keepsOrders chosen entries
  | sendToBack => exact toStart_keepsOrders chosen entries
  | bringForward => exact raise_keepsOrders chosen entries
  | sendBackward => exact lower_keepsOrders chosen entries

theorem reorder_map {β : Type} (f : β → α) (entries : List β) :
    command.reorder chosen (entries.map f) =
      (command.reorder (fun entry => chosen (f entry)) entries).map f := by
  cases command with
  | bringToFront => exact toEnd_map chosen f entries
  | sendToBack => exact toStart_map chosen f entries
  | bringForward => exact raise_map chosen f entries
  | sendBackward => exact lower_map chosen f entries

theorem reorder_eq_self_iff :
    command.reorder chosen entries = entries ↔ command.Settled chosen entries := by
  cases command with
  | bringToFront => exact toEnd_eq_self_iff chosen entries
  | sendToBack => exact toStart_eq_self_iff chosen entries
  | bringForward => exact raise_eq_self_iff chosen entries
  | sendBackward => exact lower_eq_self_iff chosen entries

theorem reorder_moves [DecidableEq α] (entries : List α) :
    command.Moves chosen entries (command.reorder chosen entries) := by
  cases command with
  | bringToFront => exact toEnd_atEnd chosen entries
  | sendToBack => exact toStart_atStart chosen entries
  | bringForward =>
    intro entry hmem hchosen
    exact raise_passes chosen entries hchosen hmem
  | sendBackward =>
    intro entry hmem hchosen
    exact lower_passes chosen entries hchosen (mem_reverse.mp hmem)

/-- Where nothing is chosen, nothing has to move. -/
theorem settled_of_none {entries : List α} (hnone : ∀ entry ∈ entries, chosen entry = false) :
    command.Settled chosen entries := by
  have hpairs : entries.Pairwise fun before after => chosen before = false ∧ chosen after = false :=
    pairwise_of_forall_mem_list fun before hbefore after hafter =>
      ⟨hnone before hbefore, hnone after hafter⟩
  have hend : Lifting.AtEnd chosen entries :=
    hpairs.imp fun hpair hbefore => absurd hbefore (by simp [hpair.1])
  have hstart : Lifting.AtStart chosen entries :=
    hpairs.imp fun hpair hafter => absurd hafter (by simp [hpair.2])
  cases command with
  | bringToFront | bringForward => exact hend
  | sendToBack | sendBackward => exact hstart

end CanvasZOrderCommand

/-- The order of `sort_layer_records`. -/
def layerRecordLe (left right : CanvasLayerRecord) : Bool :=
  decide (left.zIndex < right.zIndex) ||
    left.zIndex == right.zIndex && decide (left.ordinal ≤ right.ordinal)

variable (records : List CanvasLayerRecord)

def sortLayerRecords : List CanvasLayerRecord := records.mergeSort layerRecordLe

def reorderLayerRecords (command : CanvasZOrderCommand) : List CanvasLayerRecord :=
  command.reorder (·.selected) records

variable (left right : Int32)

/-- `i32::saturating_add`. -/
def saturatingAdd : Int32 := .ofIntClamp (left.toInt + right.toInt)

/-- `i32::saturating_sub`. -/
def saturatingSub : Int32 := .ofIntClamp (left.toInt - right.toInt)

/-- `index.min(i32::MAX as usize) as i32`. -/
def cappedOffset (index : Nat) : Int32 := .ofNat (min index 2147483647)

def normalizedLayerZOrderBase (minZ : Int32) (recordCount : Nat) : Int32 :=
  let maxOffset := cappedOffset (recordCount - 1)
  if saturatingSub .maxValue maxOffset < minZ then .maxValue - maxOffset else minZ

def normalizedLayerZIndex (baseZ : Int32) (index : Nat) : Int32 :=
  saturatingAdd baseZ (cappedOffset index)

/-- The base of the new numbers of some records. -/
def layerBase : Int32 :=
  normalizedLayerZOrderBase ((records.map (·.zIndex)).min?.getD 0) records.length

/-- The new z index of a record at an index, unless it is the old one. -/
def layerUpdate (baseZ : Int32) (entry : CanvasLayerRecord × Nat) :
    Option (CanvasRecordId × Int32) :=
  let zIndex := normalizedLayerZIndex baseZ entry.2
  if zIndex = entry.1.zIndex then none else some (entry.1.id, zIndex)

def layerZIndexUpdates : List (CanvasRecordId × Int32) :=
  records.zipIdx.filterMap (layerUpdate (layerBase records))

/-- The source returns the updates and leaves the records reordered, which no caller
reads. -/
def reorderLayerZIndices (command : CanvasZOrderCommand) : List (CanvasRecordId × Int32) :=
  if !records.any (·.selected) then []
  else
    let reordered := reorderLayerRecords records command
    if reordered.map (·.id) = records.map (·.id) then [] else layerZIndexUpdates reordered

/-- A changed order numbers the records anew, and an order that stays writes nothing. -/
theorem reorderLayerZIndices_cases (command : CanvasZOrderCommand) :
    ((reorderLayerRecords records command).map (·.id) = records.map (·.id) ∧
        reorderLayerZIndices records command = []) ∨
      ((reorderLayerRecords records command).map (·.id) ≠ records.map (·.id) ∧
        reorderLayerZIndices records command =
          layerZIndexUpdates (reorderLayerRecords records command)) := by
  rw [reorderLayerZIndices]
  cases hselected : records.any (·.selected) with
  | false =>
    rw [any_eq_false] at hselected
    have hsettled : command.Settled (·.selected) records :=
      command.settled_of_none _ fun entry hmem => by simpa using hselected entry hmem
    have hsame := (command.reorder_eq_self_iff (·.selected) records).mpr hsettled
    exact .inl ⟨congrArg (List.map (·.id)) hsame, rfl⟩
  | true =>
    by_cases hsame : (reorderLayerRecords records command).map (·.id) = records.map (·.id)
    · exact .inl ⟨hsame, if_pos hsame⟩
    · exact .inr ⟨hsame, if_neg hsame⟩

section Numbers

@[simp] theorem toInt_cappedOffset (index : Nat) :
    (cappedOffset index).toInt = min (index : Int) 2147483647 := by
  rw [cappedOffset, toInt_ofNat_of_lt (by omega)]
  omega

theorem toInt_ofIntClamp (value : Int) :
    (ofIntClamp value).toInt = max (-2147483648) (min 2147483647 value) := by
  have hleast : Int32.minValue.toInt = -2147483648 := by decide
  have hgreatest : Int32.maxValue.toInt = 2147483647 := by decide
  rw [ofIntClamp]
  split
  · split
    · rw [toInt_ofIntLE]
      omega
    · omega
  · omega

variable (minZ : Int32)

/-- The base leaves room for the numbers of all records. -/
theorem normalizedLayerZOrderBase_le (recordCount : Nat) :
    (normalizedLayerZOrderBase minZ recordCount).toInt +
      min ((recordCount - 1 : Nat) : Int) 2147483647 ≤ 2147483647 := by
  have hgreatest : Int32.maxValue.toInt = 2147483647 := by decide
  rw [normalizedLayerZOrderBase]
  simp only [lt_iff_toInt_lt, saturatingSub, toInt_ofIntClamp, hgreatest, toInt_cappedOffset]
  split
  · rw [toInt_sub, toInt_cappedOffset, Int.bmod_eq_of_le (by omega) (by omega)]
    omega
  · omega

/-- Up to 2^31 records, the new numbers count up from the base. -/
theorem normalizedLayerZIndex_toInt {recordCount index : Nat}
    (hindex : index < recordCount) (hcount : recordCount ≤ 2147483648) :
    (normalizedLayerZIndex (normalizedLayerZOrderBase minZ recordCount) index).toInt =
      (normalizedLayerZOrderBase minZ recordCount).toInt + index := by
  have hroom := normalizedLayerZOrderBase_le minZ recordCount
  have hlow := (normalizedLayerZOrderBase minZ recordCount).minValue_le_toInt
  have hleast : Int32.minValue.toInt = -2147483648 := by decide
  rw [normalizedLayerZIndex, saturatingAdd, toInt_ofIntClamp, toInt_cappedOffset]
  omega

end Numbers

variable {baseZ : Int32} {entries : List (CanvasLayerRecord × Nat)}

variable {entry : CanvasLayerRecord × Nat}

theorem layerUpdate_of_eq (hsame : normalizedLayerZIndex baseZ entry.2 = entry.1.zIndex) :
    layerUpdate baseZ entry = none := if_pos hsame

theorem layerUpdate_of_ne (hother : normalizedLayerZIndex baseZ entry.2 ≠ entry.1.zIndex) :
    layerUpdate baseZ entry = some (entry.1.id, normalizedLayerZIndex baseZ entry.2) :=
  if_neg hother

theorem layerUpdates_sublist (baseZ : Int32) (entries : List (CanvasLayerRecord × Nat)) :
    ((entries.filterMap (layerUpdate baseZ)).map Prod.fst).Sublist
      (entries.map fun entry => entry.1.id) := by
  induction entries with
  | nil => exact List.Sublist.slnil
  | cons entry rest ih =>
    by_cases hsame : normalizedLayerZIndex baseZ entry.2 = entry.1.zIndex
    · rw [filterMap_cons_none (layerUpdate_of_eq hsame)]
      exact ih.cons _
    · rw [filterMap_cons_some (layerUpdate_of_ne hsame)]
      exact ih.cons_cons _

/-- After the updates every record has its new number, also the one that had it before. -/
theorem lookup_layerUpdates (hnodup : (entries.map fun entry => entry.1.id).Nodup) (hmem :
    entry ∈ entries) :
    (IndexMap.lookup entry.1.id (entries.filterMap (layerUpdate baseZ))).getD entry.1.zIndex =
      normalizedLayerZIndex baseZ entry.2 := by
  induction entries with
  | nil => cases hmem
  | cons first rest ih =>
    rw [map_cons, nodup_cons] at hnodup
    have hnone : IndexMap.lookup first.1.id (rest.filterMap (layerUpdate baseZ)) = none := by
      rw [IndexMap.lookup_eq_none_iff]
      exact fun hlater => hnodup.1 ((layerUpdates_sublist baseZ rest).subset hlater)
    by_cases hsame : normalizedLayerZIndex baseZ first.2 = first.1.zIndex
    · rw [filterMap_cons_none (layerUpdate_of_eq hsame)]
      rcases mem_cons.mp hmem with rfl | hrest
      · rw [hnone, Option.getD_none, hsame]
      · exact ih hnodup.2 hrest
    · rw [filterMap_cons_some (layerUpdate_of_ne hsame), IndexMap.lookup]
      rcases mem_cons.mp hmem with rfl | hrest
      · rw [if_pos rfl, Option.getD_some]
      · have hne : first.1.id ≠ entry.1.id := fun heq =>
          hnodup.1 (heq ▸ mem_map_of_mem (f := fun entry => entry.1.id) hrest)
        rw [if_neg hne]
        exact ih hnodup.2 hrest

end OpenGpui.Canvas
