/-
The meaning of regrouped predicates: chains of `&&` and `||` keep theirs, and chains of
descendants do where no negation in their middle sees other contexts.
-/
import OpenGpui.Keys.PredicatePrinter
import OpenGpui.Keys.PredicateSuperset

namespace OpenGpui.Keys.KeyBindingContextPredicate

open Bool List Nat

/-- Two predicates that evaluate alike on every stack and at every depth of it. -/
def Alike (first second : KeyBindingContextPredicate) : Prop :=
  ∀ contexts allContexts, first.evalInner contexts allContexts =
    second.evalInner contexts allContexts

variable {first second left right left' right' : KeyBindingContextPredicate}

theorem Alike.trans {third : KeyBindingContextPredicate} (h : Alike first second)
    (h' : Alike second third) : Alike first third :=
  fun contexts allContexts => (h contexts allContexts).trans (h' contexts allContexts)

section

variable (hleft : Alike left left')

include hleft

variable (hright : Alike right right')

include hright

theorem Alike.and : Alike (and left right) (and left' right') := by
  intro contexts allContexts
  rw [evalInner_and, evalInner_and, hleft, hright]

theorem Alike.or : Alike (or left right) (or left' right') := by
  intro contexts allContexts
  rw [evalInner_or, evalInner_or, hleft, hright]

theorem Alike.descendant : Alike (descendant left right) (descendant left' right') := by
  intro contexts allContexts
  rw [Bool.eq_iff_iff, evalInner_descendant_iff, evalInner_descendant_iff]
  simp only [hleft _ _, hright _ _]

end

theorem Alike.not (h : Alike first second) : Alike (not first) (not second) := by
  intro contexts allContexts
  cases hlast : contexts.getLast? with
  | none =>
    rw [getLast?_eq_none_iff] at hlast
    rw [hlast, evalInner_nil, evalInner_nil]
  | some context =>
    rw [evalInner, evalInner]
    simp only [hlast, h _ _]

theorem alike_and_assoc (first second third : KeyBindingContextPredicate) :
    Alike (.and (.and first second) third) (.and first (.and second third)) := by
  intro contexts allContexts
  rw [evalInner_and, evalInner_and, evalInner_and, evalInner_and, Bool.and_assoc]

theorem alike_or_assoc (first second third : KeyBindingContextPredicate) :
    Alike (.or (.or first second) third) (.or first (.or second third)) := by
  intro contexts allContexts
  rw [evalInner_or, evalInner_or, evalInner_or, evalInner_or, Bool.or_assoc]

variable {predicate : KeyBindingContextPredicate}

theorem evalInner_of_negationFree
    (hfree : predicate.negationFree = true) (contexts allContexts allContexts' : List KeyContext) :
    predicate.evalInner contexts allContexts = predicate.evalInner contexts allContexts' := by
  rw [Bool.eq_iff_iff]
  constructor
  · exact evalInner_of_suffix hfree suffix_rfl
  · exact evalInner_of_suffix hfree suffix_rfl

/-- A descendant at a depth below the first match of its parent. -/
theorem evalInner_descendant_take {parent child : KeyBindingContextPredicate}
    (hfree : child.negationFree = true) {contexts allContexts : List KeyContext} {i depth : Nat}
    (hparent : parent.evalInner (contexts.take (i + 1)) allContexts = true)
    (hfirst : ∀ earlier < i, parent.evalInner (contexts.take (earlier + 1)) allContexts = false)
    (hdepth : depth < contexts.length) (below : List KeyContext) :
    (descendant parent child).evalInner (contexts.take (depth + 1)) allContexts = true ↔ i < depth ∧
        child.evalInner ((contexts.drop (i + 1)).take (depth - i)) below = true := by
  have htake : ∀ place < depth, (contexts.take (depth + 1)).take (place + 1) =
      contexts.take (place + 1) := by
    intro place hplace
    rw [take_take, min_eq_left (by omega)]
  have hdrop : (contexts.take (depth + 1)).drop (i + 1) =
      (contexts.drop (i + 1)).take (depth - i) := by
    rw [drop_take]
    congr 1
    omega
  rw [evalInner_descendant_iff, length_take]
  constructor
  · rintro ⟨place, hlt, hplace, hearlier, hchild⟩
    rw [htake place (by omega)] at hplace
    have hsame : place = i := by
      rcases lt_trichotomy place i with hless | heq | hless
      · rw [hfirst place hless] at hplace
        cases hplace
      · exact heq
      · have hfails := hearlier i hless
        rw [htake i (by omega), hparent] at hfails
        cases hfails
    subst hsame
    rw [hdrop, evalInner_of_negationFree hfree _ _ below] at hchild
    exact ⟨by omega, hchild⟩
  · rintro ⟨hlt, hchild⟩
    refine ⟨i, by omega, ?_, ?_, ?_⟩
    · rw [htake i hlt]
      exact hparent
    · intro earlier hearlier
      rw [htake earlier (by omega)]
      exact hfirst earlier hearlier
    · rw [hdrop, evalInner_of_negationFree hfree _ _ below]
      exact hchild

/-- Descendants regroup where no negation of the middle predicate sees other contexts. -/
theorem alike_descendant_assoc (first third : KeyBindingContextPredicate)
    (hfree : second.negationFree = true) :
    Alike (.descendant (.descendant first second) third)
      (.descendant first (.descendant second third)) := by
  intro contexts allContexts
  rw [Bool.eq_iff_iff, evalInner_descendant_iff, evalInner_descendant_iff]
  constructor
  · rintro ⟨depth, hlt, hmiddle, hearlier, hthird⟩
    obtain ⟨i, hi, hparent, hfirst, _⟩ := evalInner_descendant_iff.mp hmiddle
    rw [length_take] at hi
    have hlead : ∀ place ≤ i, (contexts.take (depth + 1)).take (place + 1) =
        contexts.take (place + 1) := by
      intro place hplace
      rw [take_take, min_eq_left (by omega)]
    rw [hlead i (le_refl i)] at hparent
    have hbefore : ∀ earlier < i,
        first.evalInner (contexts.take (earlier + 1)) allContexts = false := by
      intro earlier hless
      rw [← hlead earlier (by omega)]
      exact hfirst earlier hless
    have htake := @evalInner_descendant_take first second hfree contexts allContexts i
    rw [htake hparent hbefore (by omega) (contexts.drop (i + 1))] at hmiddle
    refine ⟨i, by omega, hparent, hbefore, ?_⟩
    rw [evalInner_descendant_iff, length_drop]
    refine ⟨depth - i - 1, by omega, ?_, ?_, ?_⟩
    · have hplace : depth - i - 1 + 1 = depth - i := by omega
      rw [hplace]
      exact hmiddle.2
    · intro earlier hless
      have hfails := hearlier (i + 1 + earlier) (by omega)
      rw [← not_eq_true, htake hparent hbefore (by omega) (contexts.drop (i + 1))]
        at hfails
      have hplace : i + 1 + earlier - i = earlier + 1 := by omega
      rw [hplace] at hfails
      rw [← not_eq_true]
      intro htrue
      exact hfails ⟨by omega, htrue⟩
    · rw [drop_drop]
      have hplace : i + 1 + (depth - i - 1 + 1) = depth + 1 := by omega
      rw [hplace]
      exact hthird
  · rintro ⟨i, hlt, hparent, hfirst, hbelow⟩
    obtain ⟨k, hk, hsecond, hfirstSecond, hthird⟩ := evalInner_descendant_iff.mp hbelow
    rw [length_drop] at hk
    have htake := @evalInner_descendant_take first second hfree contexts allContexts i
    refine ⟨i + 1 + k, by omega, ?_, ?_, ?_⟩
    · rw [htake hparent hfirst (by omega) (contexts.drop (i + 1))]
      refine ⟨by omega, ?_⟩
      have hdepth : i + 1 + k - i = k + 1 := by omega
      rw [hdepth]
      exact hsecond
    · intro earlier hless
      rw [← not_eq_true, htake hparent hfirst (by omega) (contexts.drop (i + 1))]
      rintro ⟨hmore, htrue⟩
      have hdepth : earlier - i = earlier - i - 1 + 1 := by omega
      rw [hdepth, hfirstSecond _ (by omega)] at htrue
      cases htrue
    · rw [drop_drop] at hthird
      exact hthird

/-- No predicate in the middle of a chain, this one being the rest of it, has a
negation. -/
def spineNegationFree : KeyBindingContextPredicate → Bool
  | descendant parent child => parent.negationFree && child.spineNegationFree
  | _ => true

/-- No predicate in the middle of a chain of descendants has a negation. -/
def chainsNegationFree : KeyBindingContextPredicate → Bool
  | descendant parent child =>
    child.spineNegationFree && (parent.chainsNegationFree && child.chainsNegationFree)
  | not predicate => predicate.chainsNegationFree
  | and left right | or left right => left.chainsNegationFree && right.chainsNegationFree
  | _ => true

theorem spineNegationFree_of_negationFree
    (h : predicate.negationFree = true) : predicate.spineNegationFree = true := by
  induction predicate with
  | descendant parent child _ ih =>
    rw [negationFree, and_eq_true] at h
    rw [spineNegationFree, h.1, ih h.2]
    rfl
  | _ => rfl

/-- A regrouped predicate means what the predicate does, by itself and after one before
it. -/
structure MeansSame (predicate : KeyBindingContextPredicate) : Prop where
  tree : Alike predicate.regrouped.tree predicate
  afterChild : predicate.spineNegationFree = true → ∀ before,
    Alike (predicate.regrouped.afterChild before) (.descendant before predicate)
  afterAnd : ∀ before, Alike (predicate.regrouped.afterAnd before) (.and before predicate)
  afterOr : ∀ before, Alike (predicate.regrouped.afterOr before) (.or before predicate)

theorem alike_refl (predicate : KeyBindingContextPredicate) : Alike predicate predicate :=
  fun _ _ => rfl

/-- A predicate whose text stands as one. -/
theorem MeansSame.ofSingle {tree : KeyBindingContextPredicate}
    (hregrouped : predicate.regrouped = .single tree) (h : Alike tree predicate) :
    MeansSame predicate := by
  constructor
  · rw [hregrouped]
    exact h
  · intro _ before
    rw [hregrouped]
    exact (alike_refl before).descendant h
  · intro before
    rw [hregrouped]
    exact (alike_refl before).and h
  · intro before
    rw [hregrouped]
    exact (alike_refl before).or h

theorem meansSame (h : predicate.chainsNegationFree = true) : MeansSame predicate := by
  induction predicate with
  | descendant parent child ihParent ihChild =>
    rw [chainsNegationFree, and_eq_true, and_eq_true] at h
    obtain ⟨hspine, hparentChains, hchildChains⟩ := h
    have hparent := ihParent hparentChains
    have hchild := ihChild hchildChains
    have htree : Alike (descendant parent child).regrouped.tree (.descendant parent child) :=
      (hchild.afterChild hspine _).trans (hparent.tree.descendant (alike_refl child))
    refine ⟨htree, ?_, fun before => (alike_refl before).and htree,
      fun before => (alike_refl before).or htree⟩
    intro hfree before
    rw [spineNegationFree, and_eq_true] at hfree
    have hbelow := hchild.afterChild hspine (parent.regrouped.afterChild before)
    have habove := hparent.afterChild (spineNegationFree_of_negationFree hfree.1) before
    exact (hbelow.trans (habove.descendant (alike_refl child))).trans
      (alike_descendant_assoc before child hfree.1)
  | not negated ih => exact .ofSingle rfl (ih h).tree.not
  | and left right ihLeft ihRight =>
    rw [chainsNegationFree, and_eq_true] at h
    have hleft := ihLeft h.1
    have hright := ihRight h.2
    have htree : Alike (and left right).regrouped.tree (.and left right) :=
      (hright.afterAnd _).trans (hleft.tree.and (alike_refl right))
    refine ⟨htree, fun _ before => (alike_refl before).descendant htree, ?_,
      fun before => (alike_refl before).or htree⟩
    intro before
    have hboth := (hright.afterAnd (left.regrouped.afterAnd before)).trans
      ((hleft.afterAnd before).and (alike_refl right))
    exact hboth.trans (alike_and_assoc before left right)
  | or left right ihLeft ihRight =>
    rw [chainsNegationFree, and_eq_true] at h
    have hleft := ihLeft h.1
    have hright := ihRight h.2
    have htree : Alike (or left right).regrouped.tree (.or left right) :=
      (hright.afterOr _).trans (hleft.tree.or (alike_refl right))
    refine ⟨htree, fun _ before => (alike_refl before).descendant htree,
      fun before => (alike_refl before).and htree, ?_⟩
    intro before
    have hboth := (hright.afterOr (left.regrouped.afterOr before)).trans
      ((hleft.afterOr before).or (alike_refl right))
    exact hboth.trans (alike_or_assoc before left right)
  | _ => exact .ofSingle rfl (alike_refl _)

end OpenGpui.Keys.KeyBindingContextPredicate
