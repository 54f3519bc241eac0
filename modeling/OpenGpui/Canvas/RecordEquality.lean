/-
Equality of records is symmetric and transitive: of JSON data, of coordinates and
of the records built from them.  It is not reflexive, since a NaN differs from
itself.
-/
import OpenGpui.Canvas.Document
import OpenGpui.Library.IndexMapCarry

namespace OpenGpui.Canvas

open List

namespace JsonValue

variable {lefts rights : List (String × JsonValue)}

/-- Every member on the left has an equal one on the right. -/
theorem beqMembers_iff : beqMembers lefts rights = true ↔ ∀ entry ∈ lefts, ∃ right,
      member entry.1 rights = some right ∧ beq entry.2 right = true := by
  induction lefts with
  | nil => simp [beqMembers]
  | cons entry rest ih =>
    rw [beqMembers, Bool.and_eq_true, ih, forall_mem_cons]
    cases member entry.1 rights <;> simp

theorem coversMembers_iff : coversMembers lefts rights = true ↔ ∀ entry ∈ rights, ∃ left,
      member entry.1 lefts = some left ∧ beq left entry.2 = true := by
  induction lefts generalizing rights with
  | nil =>
    rw [coversMembers]
    cases rights with
    | nil => simp
    | cons entry rest =>
      constructor
      · intro h
        exact absurd h (by simp)
      · intro h
        obtain ⟨value, hvalue, _⟩ := h entry mem_cons_self
        exact absurd hvalue (by simp [member])
  | cons head rest ih =>
    obtain ⟨key, left⟩ := head
    rw [coversMembers, Bool.and_eq_true, ih, all_eq_true]
    constructor
    · rintro ⟨hhead, hrest⟩ entry hentry
      by_cases heq : entry.1 = key
      · have hequal := hhead entry hentry
        simp only [heq, bne_self_eq_false, Bool.false_or] at hequal
        exact ⟨left, by simp [member, heq], hequal⟩
      · obtain ⟨value, hvalue, hequal⟩ :=
          hrest entry (mem_filter.mpr ⟨hentry, bne_iff_ne.mpr heq⟩)
        refine ⟨value, ?_, hequal⟩
        rw [member, find?_cons_of_neg (by simpa using Ne.symm heq)]
        exact hvalue
    · intro h
      constructor
      · intro entry hentry
        by_cases heq : entry.1 = key
        · obtain ⟨value, hvalue, hequal⟩ := h entry hentry
          simp only [member, heq, find?_cons_of_pos, beq_self_eq_true, Option.map_some,
            Option.some.injEq] at hvalue
          simp [heq, hvalue, hequal]
        · simp [heq]
      · intro entry hentry
        obtain ⟨hmem, hne⟩ := mem_filter.mp hentry
        obtain ⟨value, hvalue, hequal⟩ := h entry hmem
        refine ⟨value, ?_, hequal⟩
        rw [member, find?_cons_of_neg (by simpa using Ne.symm (bne_iff_ne.mp hne))] at hvalue
        exact hvalue

variable {members : List (String × JsonValue)} {value : JsonValue} {key : String}

theorem mem_of_member (h : member key members = some value) : (key, value) ∈ members := by
  obtain ⟨entry, hfind, rfl⟩ := Option.map_eq_some_iff.mp h
  have hkey : entry.1 = key := by simpa using find?_some hfind
  exact hkey ▸ mem_of_find?_eq_some hfind

theorem beq_object_iff :
    beq (.object lefts) (.object rights) = true ↔ lefts.length = rights.length ∧
      (∀ entry ∈ lefts, ∃ right, member entry.1 rights = some right ∧ beq entry.2 right = true) ∧
      ∀ entry ∈ rights, ∃ left, member entry.1 lefts = some left ∧ beq left entry.2 = true := by
  rw [beq, Bool.and_eq_true, Bool.and_eq_true, beq_iff_eq, beqMembers_iff, coversMembers_iff,
    and_assoc]

theorem sizeOf_member
    (h : (key, value) ∈ members) : sizeOf value < sizeOf (JsonValue.object members) := by
  have hmember := sizeOf_lt_of_mem h
  simp only [Prod.mk.sizeOf_spec, object.sizeOf_spec] at hmember ⊢
  omega

theorem beqItems_symm {lefts rights : List JsonValue}
    (hitems : ∀ left ∈ lefts, ∀ right, beq left right = true → beq right left = true)
    (h : beqItems lefts rights = true) : beqItems rights lefts = true := by
  induction lefts generalizing rights with
  | nil =>
    cases rights with
    | nil => rfl
    | cons right rights => exact absurd h (by simp [beqItems])
  | cons left lefts ih =>
    cases rights with
    | nil => exact absurd h (by simp [beqItems])
    | cons right rights =>
      rw [beqItems, Bool.and_eq_true] at h ⊢
      exact ⟨hitems left mem_cons_self right h.1,
        ih (fun item hmem => hitems item (mem_cons_of_mem _ hmem)) h.2⟩

theorem beqItems_trans {lefts middles rights : List JsonValue}
    (hitems : ∀ left ∈ lefts, ∀ middle right, beq left middle = true → beq middle right = true →
      beq left right = true)
    (h : beqItems lefts middles = true) (hnext : beqItems middles rights = true) :
    beqItems lefts rights = true := by
  induction lefts generalizing middles rights with
  | nil =>
    cases middles with
    | nil => exact hnext
    | cons middle middles => exact absurd h (by simp [beqItems])
  | cons left lefts ih =>
    cases middles with
    | nil => exact absurd h (by simp [beqItems])
    | cons middle middles =>
      cases rights with
      | nil => exact absurd hnext (by simp [beqItems])
      | cons right rights =>
        rw [beqItems, Bool.and_eq_true] at h hnext ⊢
        exact ⟨hitems left mem_cons_self middle right h.1 hnext.1,
          ih (fun item hmem => hitems item (mem_cons_of_mem _ hmem)) h.2 hnext.2⟩

/-- Comparison does not care for sides. -/
theorem beq_symm (left right : JsonValue) (h : beq left right = true) : beq right left = true := by
  cases left with
  | object lefts =>
    cases right with
    | object rights =>
      obtain ⟨hlength, hforth, hback⟩ := beq_object_iff.mp h
      refine beq_object_iff.mpr ⟨hlength.symm, ?_, ?_⟩
      · intro entry hentry
        obtain ⟨value, hvalue, hequal⟩ := hback entry hentry
        have := sizeOf_member (mem_of_member hvalue)
        exact ⟨value, hvalue, beq_symm value entry.2 hequal⟩
      · intro entry hentry
        obtain ⟨value, hvalue, hequal⟩ := hforth entry hentry
        have := sizeOf_member hentry
        exact ⟨value, hvalue, beq_symm entry.2 value hequal⟩
    | _ => exact absurd h (by simp [beq])
  | array lefts =>
    cases right with
    | array rights =>
      refine beqItems_symm (fun item hmem other hequal => ?_) h
      have := sizeOf_lt_of_mem hmem
      exact beq_symm item other hequal
    | _ => exact absurd h (by simp [beq])
  | null =>
    cases right with
    | null => rfl
    | _ => exact absurd h (by simp [beq])
  | bool left =>
    cases right with
    | bool right =>
      obtain rfl : left = right := by simpa [beq] using h
      exact h
    | _ => exact absurd h (by simp [beq])
  | number left =>
    cases right with
    | number right =>
      obtain rfl : left = right := by simpa [beq] using h
      exact h
    | _ => exact absurd h (by simp [beq])
  | string left =>
    cases right with
    | string right =>
      obtain rfl : left = right := by simpa [beq] using h
      exact h
    | _ => exact absurd h (by simp [beq])
termination_by sizeOf left
decreasing_by
  all_goals simp_all
  all_goals omega

/-- Values equal to one value are equal. -/
theorem beq_trans (left middle right : JsonValue) (h : beq left middle = true)
    (hnext : beq middle right = true) : beq left right = true := by
  cases left with
  | object lefts =>
    cases middle with
    | object middles =>
      cases right with
      | object rights =>
        obtain ⟨hlength, hforth, hback⟩ := beq_object_iff.mp h
        obtain ⟨hlengthNext, hforthNext, hbackNext⟩ := beq_object_iff.mp hnext
        refine beq_object_iff.mpr ⟨hlength.trans hlengthNext, ?_, ?_⟩
        · intro entry hentry
          obtain ⟨value, hvalue, hequal⟩ := hforth entry hentry
          obtain ⟨other, hother, hlater⟩ := hforthNext (entry.1, value) (mem_of_member hvalue)
          have := sizeOf_member hentry
          exact ⟨other, hother, beq_trans entry.2 value other hequal hlater⟩
        · intro entry hentry
          obtain ⟨value, hvalue, hlater⟩ := hbackNext entry hentry
          obtain ⟨other, hother, hequal⟩ := hback (entry.1, value) (mem_of_member hvalue)
          have := sizeOf_member (mem_of_member hother)
          exact ⟨other, hother, beq_trans other value entry.2 hequal hlater⟩
      | _ => exact absurd hnext (by simp [beq])
    | _ => exact absurd h (by simp [beq])
  | array lefts =>
    cases middle with
    | array middles =>
      cases right with
      | array rights =>
        refine beqItems_trans (fun item hmem other last hequal hlater => ?_) h hnext
        have := sizeOf_lt_of_mem hmem
        exact beq_trans item other last hequal hlater
      | _ => exact absurd hnext (by simp [beq])
    | _ => exact absurd h (by simp [beq])
  | null =>
    cases middle with
    | null => exact hnext
    | _ => exact absurd h (by simp [beq])
  | bool left =>
    cases middle with
    | bool middle =>
      have heq : left = middle := by simpa [beq] using h
      exact heq ▸ hnext
    | _ => exact absurd h (by simp [beq])
  | number left =>
    cases middle with
    | number middle =>
      have heq : left = middle := by simpa [beq] using h
      exact heq ▸ hnext
    | _ => exact absurd h (by simp [beq])
  | string left =>
    cases middle with
    | string middle =>
      have heq : left = middle := by simpa [beq] using h
      exact heq ▸ hnext
    | _ => exact absurd h (by simp [beq])
termination_by sizeOf left
decreasing_by
  all_goals simp_all
  all_goals omega

instance : PartialEquivBEq JsonValue where
  symm {left right} h := beq_symm left right h
  trans {left middle right} h hnext := beq_trans left middle right h hnext

end JsonValue

instance : PartialEquivBEq Pixels where
  symm {left right} h := by
    cases left <;> cases right <;> simp_all [BEq.beq, Pixels.beq]
  trans {left middle right} h hnext := by
    cases left <;> cases middle <;> cases right <;> simp_all [BEq.beq, Pixels.beq]

instance : PartialEquivBEq Point :=
  partialEquivBEq_of_map (fun point => (point.x, point.y)) fun _ _ => rfl

instance : PartialEquivBEq Size :=
  partialEquivBEq_of_map (fun size => (size.width, size.height)) fun _ _ => rfl

instance : PartialEquivBEq Bounds :=
  partialEquivBEq_of_map (fun bounds => (bounds.origin, bounds.size)) fun _ _ => rfl

instance : PartialEquivBEq CanvasStyle :=
  partialEquivBEq_of_map (fun style => (style.fill, style.stroke, style.strokeWidth)) fun _ _ => rfl

instance : PartialEquivBEq CanvasHandle :=
  partialEquivBEq_of_map (fun handle => (handle.id, handle.role, handle.position, handle.size,
    handle.connectable, handle.hidden)) fun _ _ => rfl

instance : PartialEquivBEq CanvasNode :=
  partialEquivBEq_of_map (fun node => (node.id, node.kind, node.position, node.size, node.zIndex,
    node.hidden, node.locked, node.handles, node.data, node.style)) fun _ _ => rfl

instance : PartialEquivBEq CanvasEdgeRoute :=
  partialEquivBEq_of_map (fun route => (route.kind, route.waypoints, route.controlPoints,
    route.interactionWidth, route.options)) fun _ _ => rfl

instance : PartialEquivBEq CanvasEdge :=
  partialEquivBEq_of_map (fun edge => (edge.id, edge.kind, edge.source, edge.target, edge.zIndex,
    edge.hidden, edge.locked, edge.data, edge.style, edge.route)) fun _ _ => rfl

instance : PartialEquivBEq CanvasShape :=
  partialEquivBEq_of_map (fun shape => (shape.id, shape.kind, shape.bounds, shape.zIndex,
    shape.hidden, shape.locked, shape.data, shape.style)) fun _ _ => rfl

end OpenGpui.Canvas
