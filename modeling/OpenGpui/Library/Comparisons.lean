/-
Comparison functions: when one is a total preorder on a set of values, which three
values keep it from being one, also when a second comparison decides ties, and the sorts
that such a comparison may be handed to.  A stable sort commutes with leaving
values out.
-/
import Mathlib.Data.List.Sort

namespace OpenGpui

open List

universe u v

/-- The comparison orders the values of the set, ties allowed. -/
structure TotalPreorderOn {α : Type u} (order : α → α → Ordering) (values : Set α) : Prop where
  swap : ∀ left ∈ values, ∀ right ∈ values, order right left = (order left right).swap
  trans : ∀ first ∈ values, ∀ second ∈ values, ∀ third ∈ values,
    (order first second).isLE = true → (order second third).isLE = true →
      (order first third).isLE = true

namespace TotalPreorderOn

variable {α : Type u} {β : Type v} {order other : α → α → Ordering} {values : Set α}

section

variable (h : TotalPreorderOn order values)

include h

theorem total {left right : α} (hleft : left ∈ values) (hright : right ∈ values) :
    (order left right).isLE = true ∨ (order right left).isLE = true := by
  rw [h.swap left hleft right hright]
  cases order left right <;> simp

theorem comap (key : β → α) {keyed : Set β} (hkeyed : ∀ value ∈ keyed, key value ∈ values) :
    TotalPreorderOn (fun left right => order (key left) (key right)) keyed where
  swap left hleft right hright :=
    h.swap _ (hkeyed left hleft) _ (hkeyed right hright)
  trans first hfirst second hsecond third hthird :=
    h.trans _ (hkeyed first hfirst) _ (hkeyed second hsecond) _ (hkeyed third hthird)

end

theorem isLE_cmp_iff {γ : Type v} [LinearOrder γ] {left right : γ} :
    (cmp left right).isLE = true ↔ left ≤ right := by
  rw [Ordering.isLE_iff_ne_gt, cmp_eq_gt_iff, not_lt]

theorem of_linearOrder {γ : Type v} [LinearOrder γ] (set : Set γ) :
    TotalPreorderOn (fun left right : γ => cmp left right) set where
  swap left _ right _ := (cmp_swap left right).symm
  trans first _ second _ third _ := by
    rw [isLE_cmp_iff, isLE_cmp_iff, isLE_cmp_iff]
    exact le_trans

end TotalPreorderOn

/-- Three values circle: none is greater than the next, and they do not all tie. -/
def Circles {α : Type u} (order : α → α → Ordering) (first second third : α) : Prop :=
  (order first second).isLE ∧ (order second third).isLE ∧ (order third first).isLE ∧
    ¬(order first second = .eq ∧ order second third = .eq ∧ order third first = .eq)

section Circles

variable {α : Type u} {order other : α → α → Ordering} {first second third : α}

theorem Circles.rotate (h : Circles order first second third) :
    Circles order second third first := by
  obtain ⟨hle, hle', hle'', hround⟩ := h
  refine ⟨hle', hle'', hle, ?_⟩
  rintro ⟨hsecond, hthird, hfirst⟩
  exact hround ⟨hfirst, hsecond, hthird⟩

theorem circles_flip : Circles (fun left right => order right left) first second third ↔
    Circles order third second first := by
  simp only [Circles]
  tauto

/-- Where a second comparison decides ties, three values circle in the first comparison,
and the second goes along where they tie, or they tie and circle in the second. -/
theorem circles_then :
    Circles (fun left right => (order left right).then (other left right)) first second third ↔
      (Circles order first second third ∧ (order first second = .eq → (other first second).isLE) ∧
        (order second third = .eq → (other second third).isLE) ∧
          (order third first = .eq → (other third first).isLE)) ∨
        (order first second = .eq ∧ order second third = .eq ∧ order third first = .eq) ∧
          Circles other first second third := by
  simp only [Circles]
  cases order first second <;> cases order second third <;> cases order third first <;> simp

/-- A comparison orders the values exactly when no three of them circle. -/
theorem totalPreorderOn_iff {values : Set α}
    (hswap : ∀ left right, order right left = (order left right).swap) :
    TotalPreorderOn order values ↔ ∀ first ∈ values, ∀ second ∈ values, ∀ third ∈ values,
      ¬Circles order first second third := by
  constructor
  · rintro ⟨-, htrans⟩ first hfirst second hsecond third hthird ⟨hle, hle', hle'', hround⟩
    have htie : ∀ {left right}, (order left right).isLE = true →
        (order right left).isLE = true → order left right = .eq := by
      intro left right hle hge
      rw [hswap left right] at hge
      exact Ordering.eq_eq_of_isLE_of_isLE_swap hle hge
    exact hround ⟨htie hle (htrans _ hsecond _ hthird _ hfirst hle' hle''),
      htie hle' (htrans _ hthird _ hfirst _ hsecond hle'' hle),
      htie hle'' (htrans _ hfirst _ hsecond _ hthird hle hle')⟩
  · intro hround
    refine ⟨fun left _ right _ => hswap left right, ?_⟩
    intro first hfirst second hsecond third hthird hle hle'
    by_contra hgt
    -- the third value comes strictly before the first
    have hlt : order third first = .lt := by
      rw [hswap first third]
      cases horder : order first third with
      | gt => rfl
      | lt | eq => simp [horder] at hgt
    apply hround first hfirst second hsecond third hthird
    refine ⟨hle, hle', by rw [hlt]; rfl, ?_⟩
    rintro ⟨-, -, heq⟩
    rw [hlt] at heq
    cases heq

/-- Values that are compared by a key in a linear order do not circle. -/
theorem not_circles_cmp {γ : Type v} [LinearOrder γ] (key : α → γ) :
    ¬Circles (fun left right => cmp (key left) (key right)) first second third :=
  (totalPreorderOn_iff fun _ _ => (cmp_swap _ _).symm).mp
    ((TotalPreorderOn.of_linearOrder Set.univ).comap key fun _ _ => Set.mem_univ _)
    first (Set.mem_univ _) second (Set.mem_univ _) third (Set.mem_univ _)

end Circles

/-- A sort of slices by a comparison.  It keeps all values whatever the comparison is,
and orders them when that is a total preorder on them. -/
structure SliceSort (α : Type u) where
  sortBy : (α → α → Ordering) → List α → List α
  perm : ∀ order values, (sortBy order values).Perm values
  sorted : ∀ order values, TotalPreorderOn order { value | value ∈ values } →
    (sortBy order values).Pairwise fun earlier later => order earlier later ≠ .gt

namespace SliceSort

variable {α : Type u}

/-- Insertion, an equal value after those that stood before it. -/
def insertion (α : Type u) : SliceSort α where
  sortBy order values := values.insertionSort fun left right =>
    (order left right).isLE = true
  perm _ _ := List.perm_insertionSort _ _
  sorted order values h := by
    -- on the values of the list the comparison is total and transitive; elsewhere it
    -- need not be, so the list is sorted as one of its own members
    let member := { value // value ∈ values }
    let below : member → member → Prop := fun left right =>
      (order left.1 right.1).isLE = true
    have htotal : Std.Total below := ⟨fun left right => h.total left.2 right.2⟩
    have htrans : IsTrans member below := ⟨fun first second third =>
      h.trans first.1 first.2 second.1 second.2 third.1 third.2⟩
    have hsorted : (values.attach.insertionSort below).Pairwise below :=
      List.pairwise_insertionSort below values.attach
    have hmap := List.map_insertionSort below
      (fun left right => (order left right).isLE = true) Subtype.val values.attach
      fun _ _ _ _ => Iff.rfl
    rw [List.attach_map_subtype_val] at hmap
    rw [← hmap, List.pairwise_map]
    apply hsorted.imp
    intro left right hle
    exact Ordering.isLE_iff_ne_gt.mp hle

end SliceSort

variable {α : Type u} {le : α → α → Bool}

/-- Where a stable sort puts one more value: before the first one that is not below it. -/
theorem mergeSort_cons_split (htrans : ∀ a b c, le a b → le b c → le a c)
    (htotal : ∀ a b, le a b || le b a) (value : α) (rest : List α) :
    ∃ before after, (value :: rest).mergeSort le = before ++ value :: after ∧
      rest.mergeSort le = before ++ after ∧
      (∀ other ∈ before, (!le value other) = true) ∧
        ∀ other ∈ after, (!le value other) = false := by
  obtain ⟨before, after, hsorted, hrest, hbefore⟩ := mergeSort_cons htrans htotal value rest
  refine ⟨before, after, hsorted, hrest, hbefore, ?_⟩
  have hpairs := hsorted ▸ pairwise_mergeSort htrans htotal (value :: rest)
  intro other hmem
  rw [rel_of_pairwise_cons (pairwise_append.mp hpairs).2.1 hmem, Bool.not_true]

/-- A list is cut in one way only where a test starts to fail. -/
theorem cut_unique {test : α → Bool} {first second before after : List α}
    (heq : first ++ second = before ++ after) (hfirst : ∀ value ∈ first, test value = true)
    (hsecond : ∀ value ∈ second, test value = false) (hbefore : ∀ value ∈ before, test value = true)
    (hafter : ∀ value ∈ after, test value = false) : first = before ∧ second = after := by
  have hcut : ∀ front back : List α, (∀ value ∈ front, test value = true) →
      (∀ value ∈ back, test value = false) → (front ++ back).filter test = front := by
    intro front back hfront hback
    rw [filter_append, filter_eq_self.mpr hfront,
      filter_eq_nil_iff.mpr fun value hmem => by simp [hback value hmem], append_nil]
  have hfront : first = before := by
    rw [← hcut first second hfirst hsecond, heq, hcut before after hbefore hafter]
  exact ⟨hfront, append_cancel_left (hfront ▸ heq)⟩

/-- What is kept of a stable sort is the stable sort of what is kept. -/
theorem filter_mergeSort (htrans : ∀ a b c, le a b → le b c → le a c)
    (htotal : ∀ a b, le a b || le b a) (keep : α → Bool) (values : List α) :
    (values.mergeSort le).filter keep = (values.filter keep).mergeSort le := by
  induction values with
  | nil => simp
  | cons value rest ih =>
    obtain ⟨before, after, hsorted, hrest, hbefore, hafter⟩ :=
      mergeSort_cons_split htrans htotal value rest
    rw [hrest, filter_append] at ih
    rw [hsorted, filter_append]
    cases hkeep : keep value with
    | false =>
      rw [filter_cons_of_neg (by simp [hkeep]), filter_cons_of_neg (by simp [hkeep]), ih]
    | true =>
      obtain ⟨first, second, hkept, hboth, hfirst, hsecond⟩ :=
        mergeSort_cons_split htrans htotal value (rest.filter keep)
      obtain ⟨hfront, hback⟩ := cut_unique (ih.trans hboth)
        (fun other hmem => hbefore other (mem_filter.mp hmem).1)
        (fun other hmem => hafter other (mem_filter.mp hmem).1) hfirst hsecond
      rw [filter_cons_of_pos hkeep, filter_cons_of_pos hkeep, hkept, hfront, hback]

end OpenGpui
