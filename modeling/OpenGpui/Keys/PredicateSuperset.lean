/-
The superset test of context predicates is sound for predicates without negation: what
such a predicate accepts it still accepts with more contexts above.
-/
import OpenGpui.Keys.Binding
import Mathlib.Data.Nat.Find

namespace OpenGpui.Keys.KeyBindingContextPredicate

open Bool List Nat

def negationFree : KeyBindingContextPredicate → Bool
  | not _ => false
  | descendant parent child => parent.negationFree && child.negationFree
  | and left right => left.negationFree && right.negationFree
  | or left right => left.negationFree && right.negationFree
  | _ => true

theorem getLast?_append_of_ne_nil {α : Type} (first : List α) {second : List α}
    (h : second ≠ []) : (first ++ second).getLast? = second.getLast? := by
  rw [getLast?_append, getLast?_eq_some_getLast h, Option.some_or]

theorem evalInner_nil (predicate : KeyBindingContextPredicate)
    (allContexts : List KeyContext) : predicate.evalInner [] allContexts = false := by
  unfold evalInner
  rfl

variable {predicate : KeyBindingContextPredicate} {contexts allContexts : List KeyContext}

theorem ne_nil_of_evalInner
    (h : predicate.evalInner contexts allContexts = true) : contexts ≠ [] := by
  rintro rfl
  rw [evalInner_nil] at h
  cases h

theorem evalInner_descendant_iff {parent child : KeyBindingContextPredicate} :
    (descendant parent child).evalInner contexts allContexts = true ↔ ∃ i, i + 1 < contexts.length ∧
        parent.evalInner (contexts.take (i + 1)) allContexts = true ∧ (∀ earlier < i,
            parent.evalInner (contexts.take (earlier + 1)) allContexts = false) ∧
            child.evalInner (contexts.drop (i + 1)) (contexts.drop (i + 1)) = true := by
  by_cases hnil : contexts = []
  · subst hnil
    constructor
    · intro h
      exact absurd rfl (ne_nil_of_evalInner h)
    · rintro ⟨i, hlt, _⟩
      exact absurd hlt (not_lt_zero _)
  · obtain ⟨context, hlast⟩ : ∃ context, contexts.getLast? = some context :=
      ⟨_, getLast?_eq_some_getLast hnil⟩
    rw [evalInner]
    simp only [hlast]
    cases hfind : (List.range (contexts.length - 1)).find? fun i =>
        parent.evalInner (contexts.take (i + 1)) allContexts with
    | none =>
      rw [find?_range_eq_none] at hfind
      constructor
      · intro h
        cases h
      · rintro ⟨i, hlt, hparent, _⟩
        have hfails := hfind i (by omega)
        rw [hparent] at hfails
        cases hfails
    | some i =>
      obtain ⟨hparent, hmem, hearlier⟩ := find?_range_eq_some.mp hfind
      have hlt : i + 1 < contexts.length := by
        have hrange := mem_range.mp hmem
        omega
      constructor
      · intro hchild
        refine ⟨i, hlt, hparent, ?_, hchild⟩
        intro earlier hless
        simpa using hearlier earlier hless
      · rintro ⟨other, hother, hotherParent, hotherEarlier, hchild⟩
        have hsame : other = i := by
          rcases lt_trichotomy other i with hless | heq | hless
          · have hfails := hearlier other hless
            rw [hotherParent] at hfails
            cases hfails
          · exact heq
          · rw [hotherEarlier i hless] at hparent
            cases hparent
        rw [← hsame]
        exact hchild

variable {left right : KeyBindingContextPredicate}

theorem evalInner_and : (and left right).evalInner contexts allContexts =
      (left.evalInner contexts allContexts && right.evalInner contexts allContexts) := by
  cases hlast : contexts.getLast? with
  | none =>
    rw [getLast?_eq_none_iff] at hlast
    simp [hlast, evalInner_nil]
  | some context =>
    rw [evalInner]
    simp only [hlast]

theorem evalInner_or : (or left right).evalInner contexts allContexts =
      (left.evalInner contexts allContexts || right.evalInner contexts allContexts) := by
  cases hlast : contexts.getLast? with
  | none =>
    rw [getLast?_eq_none_iff] at hlast
    simp [hlast, evalInner_nil]
  | some context =>
    rw [evalInner]
    simp only [hlast]

/-- More contexts above change nothing for a predicate without negation. -/
theorem evalInner_of_suffix (hfree : predicate.negationFree = true)
    {contexts' allContexts' : List KeyContext} (hsuffix : contexts <:+ contexts')
    (h : predicate.evalInner contexts allContexts = true) :
    predicate.evalInner contexts' allContexts' = true := by
  have hlast : contexts'.getLast? = contexts.getLast? := by
    obtain ⟨above, rfl⟩ := hsuffix
    exact getLast?_append_of_ne_nil _ (ne_nil_of_evalInner h)
  induction predicate generalizing contexts allContexts contexts' allContexts' with
  | descendant parent child ihParent ihChild =>
    rw [negationFree, and_eq_true] at hfree
    obtain ⟨above, rfl⟩ := hsuffix
    rw [evalInner_descendant_iff] at h ⊢
    obtain ⟨i, hlt, hparent, _, hchild⟩ := h
    have hlater : parent.evalInner ((above ++ contexts).take (above.length + i + 1))
        allContexts' = true := by
      have htake : (above ++ contexts).take (above.length + i + 1) =
          above ++ contexts.take (i + 1) := by
        rw [Nat.add_assoc, take_length_add_append]
      rw [htake]
      have hne := ne_nil_of_evalInner hparent
      exact ihParent hfree.1 (suffix_append _ _) hparent (getLast?_append_of_ne_nil _ hne)
    -- the parent may match earlier, and then the child sees more contexts
    have hexists : ∃ place, parent.evalInner ((above ++ contexts).take (place + 1))
        allContexts' = true := ⟨_, hlater⟩
    have hfirst := Nat.find_spec hexists
    have hle : Nat.find hexists ≤ above.length + i := Nat.find_min' hexists hlater
    have hbelow : contexts.drop (i + 1) <:+ (above ++ contexts).drop (Nat.find hexists + 1) := by
      have hdrop : contexts.drop (i + 1) = ((above ++ contexts).drop (Nat.find hexists + 1)).drop
            (above.length + i - Nat.find hexists) := by
        rw [drop_drop]
        have hsum : Nat.find hexists + 1 + (above.length + i - Nat.find hexists) =
            above.length + (i + 1) := by omega
        rw [hsum, drop_length_add_append]
      rw [hdrop]
      exact drop_suffix _ _
    refine ⟨Nat.find hexists, ?_, hfirst, ?_, ?_⟩
    · rw [length_append]
      omega
    · intro earlier hearlier
      exact eq_false_iff.mpr (Nat.find_min hexists hearlier)
    · apply ihChild hfree.2 hbelow hchild
      obtain ⟨more, hmore⟩ := hbelow
      rw [← hmore]
      exact getLast?_append_of_ne_nil _ (ne_nil_of_evalInner hchild)
  | not negated _ => cases hfree
  | and left right ihLeft ihRight =>
    rw [negationFree, and_eq_true] at hfree
    rw [evalInner_and, and_eq_true] at h ⊢
    exact ⟨ihLeft hfree.1 hsuffix h.1 hlast, ihRight hfree.2 hsuffix h.2 hlast⟩
  | or left right ihLeft ihRight =>
    rw [negationFree, and_eq_true] at hfree
    rw [evalInner_or, or_eq_true] at h ⊢
    rcases h with hleft | hright
    · exact .inl (ihLeft hfree.1 hsuffix hleft hlast)
    · exact .inr (ihRight hfree.2 hsuffix hright hlast)
  | identifier name | equal left right | notEqual left right =>
    unfold evalInner at h ⊢
    rw [hlast]
    exact h

variable {other : KeyBindingContextPredicate}

theorem isSupersetBelow_sound (hfree : predicate.negationFree = true)
    (hsuperset : predicate.isSupersetBelow other = true)
    (h : other.evalInner contexts allContexts = true) :
    predicate.evalInner contexts allContexts = true := by
  induction other generalizing contexts allContexts with
  | descendant parent child _ ihChild =>
    rw [isSupersetBelow, or_eq_true, beq_iff_eq] at hsuperset
    rcases hsuperset with rfl | hchild
    · exact h
    · obtain ⟨i, _, _, _, hbelow⟩ := evalInner_descendant_iff.mp h
      exact evalInner_of_suffix hfree (drop_suffix _ _) (ihChild hchild hbelow)
  | and left right ihLeft ihRight =>
    rw [isSupersetBelow, or_eq_true, or_eq_true, beq_iff_eq] at hsuperset
    rcases hsuperset with rfl | hleft | hright
    · exact h
    · rw [evalInner_and, and_eq_true] at h
      exact ihLeft hleft h.1
    · rw [evalInner_and, and_eq_true] at h
      exact ihRight hright h.2
  | _ =>
    rw [isSupersetBelow, beq_iff_eq] at hsuperset
    · rw [hsuperset]
      exact h
    · nofun
    · nofun

theorem depthOf_le_of_imp (himp : ∀ depth, other.evalInner (contexts.take depth) contexts = true →
      predicate.evalInner (contexts.take depth) contexts = true)
    {depth : Nat} (h : other.depthOf contexts = some depth) :
    ∃ deeper, predicate.depthOf contexts = some deeper ∧ depth ≤ deeper := by
  obtain ⟨hlt, hother, _⟩ := lastBelow_eq_some_iff.mp h
  have hpredicate := himp depth hother
  cases hdepth : predicate.depthOf contexts with
  | none =>
    have hfails := lastBelow_eq_none_iff.mp hdepth depth hlt
    rw [hpredicate] at hfails
    cases hfails
  | some deeper =>
    refine ⟨deeper, rfl, ?_⟩
    obtain ⟨_, _, hlater⟩ := lastBelow_eq_some_iff.mp hdepth
    by_contra hnot
    have hfails := hlater depth (by omega) hlt
    rw [hpredicate] at hfails
    cases hfails

/-- The superset test found equal predicates, and where a descendant is passed on the way
the contexts above it make no difference. -/
def equalsAlike (predicate : KeyBindingContextPredicate) (below : Bool)
    (other : KeyBindingContextPredicate) : Bool :=
  predicate == other && (!below || predicate.negationFree)

def isSupersetAlikeBelow (predicate : KeyBindingContextPredicate) :
    Bool → KeyBindingContextPredicate → Bool
  | below, descendant parent child =>
    predicate.equalsAlike below (descendant parent child) ||
      predicate.isSupersetAlikeBelow true child
  | below, and left right =>
    predicate.equalsAlike below (and left right) || (predicate.isSupersetAlikeBelow below left ||
        predicate.isSupersetAlikeBelow below right)
  | below, other => predicate.equalsAlike below other

/-- The superset test, without the negations that it finds below a descendant. -/
def isSupersetAlike (predicate other : KeyBindingContextPredicate) : Bool :=
  predicate == other || match predicate with
    | or left right => left.isSupersetAlike other || right.isSupersetAlike other
    | _ => predicate.isSupersetAlikeBelow false other

theorem isSupersetBelow_of_alike (h : predicate.isSupersetAlikeBelow true other = true) :
    predicate.negationFree = true ∧ predicate.isSupersetBelow other = true := by
  induction other with
  | descendant parent child _ ihChild =>
    rw [isSupersetAlikeBelow, equalsAlike, or_eq_true, and_eq_true] at h
    rcases h with ⟨heq, hfree⟩ | hchild
    · exact ⟨hfree, by rw [isSupersetBelow, heq, Bool.true_or]⟩
    · obtain ⟨hfree, hbelow⟩ := ihChild hchild
      exact ⟨hfree, by rw [isSupersetBelow, hbelow, Bool.or_true]⟩
  | and left right ihLeft ihRight =>
    rw [isSupersetAlikeBelow, equalsAlike, or_eq_true, or_eq_true, and_eq_true] at h
    rcases h with ⟨heq, hfree⟩ | hleft | hright
    · exact ⟨hfree, by rw [isSupersetBelow, heq, Bool.true_or]⟩
    · obtain ⟨hfree, hbelow⟩ := ihLeft hleft
      exact ⟨hfree, by rw [isSupersetBelow, hbelow, Bool.true_or, Bool.or_true]⟩
    · obtain ⟨hfree, hbelow⟩ := ihRight hright
      exact ⟨hfree, by rw [isSupersetBelow, hbelow, Bool.or_true, Bool.or_true]⟩
  | _ =>
    rw [isSupersetAlikeBelow, equalsAlike, and_eq_true] at h
    · exact ⟨h.2, h.1⟩
    · nofun
    · nofun

theorem isSupersetAlikeBelow_sound (halike : predicate.isSupersetAlikeBelow false other = true)
    (h : other.evalInner contexts allContexts = true) :
    predicate.evalInner contexts allContexts = true := by
  induction other with
  | descendant parent child _ _ =>
    rw [isSupersetAlikeBelow, equalsAlike, or_eq_true, and_eq_true, beq_iff_eq] at halike
    rcases halike with ⟨rfl, _⟩ | hchild
    · exact h
    · obtain ⟨i, _, _, _, hbelow⟩ := evalInner_descendant_iff.mp h
      obtain ⟨hfree, hsuperset⟩ := isSupersetBelow_of_alike hchild
      exact evalInner_of_suffix hfree (drop_suffix _ _)
        (isSupersetBelow_sound hfree hsuperset hbelow)
  | and left right ihLeft ihRight =>
    rw [isSupersetAlikeBelow, equalsAlike, or_eq_true, or_eq_true,
      and_eq_true, beq_iff_eq] at halike
    rw [evalInner_and, and_eq_true] at h
    rcases halike with ⟨rfl, _⟩ | hleft | hright
    · rw [evalInner_and, and_eq_true]
      exact h
    · exact ihLeft hleft h.1
    · exact ihRight hright h.2
  | _ =>
    rw [isSupersetAlikeBelow, equalsAlike, and_eq_true, beq_iff_eq] at halike
    · rw [halike.1]
      exact h
    · nofun
    · nofun

theorem isSupersetAlike_sound (halike : predicate.isSupersetAlike other = true)
    (h : other.evalInner contexts allContexts = true) :
    predicate.evalInner contexts allContexts = true := by
  induction predicate with
  | or left right ihLeft ihRight =>
    simp only [isSupersetAlike, or_eq_true, beq_iff_eq] at halike
    rcases halike with rfl | hleft | hright
    · exact h
    · rw [evalInner_or, ihLeft hleft, Bool.true_or]
    · rw [evalInner_or, ihRight hright, Bool.or_true]
  | _ =>
    simp only [isSupersetAlike, or_eq_true, beq_iff_eq] at halike
    rcases halike with rfl | hbelow
    · exact h
    · exact isSupersetAlikeBelow_sound hbelow h

/-- What the superset test accepts without a negation below a descendant matches in every
stack in which the other matches. -/
theorem superset_matches
    (halike : predicate.isSuperset other = true → predicate.isSupersetAlike other = true)
    (hsuperset : predicate.isSuperset other = true) (h : (other.depthOf contexts).isSome = true) :
    (predicate.depthOf contexts).isSome = true := by
  obtain ⟨depth, hdepth⟩ := Option.isSome_iff_exists.mp h
  obtain ⟨deeper, hdeeper, _⟩ := depthOf_le_of_imp
    (fun _ => isSupersetAlike_sound (halike hsuperset)) hdepth
  rw [hdeeper]
  rfl

theorem superset_matches_below_pane :
    ((identifier "Editor").depthOf [[⟨"Pane", none⟩], [⟨"Editor", none⟩]]).isSome = true :=
  @superset_matches (identifier "Editor") _ (descendant (identifier "Pane") (identifier "Editor"))
    (by decide) (by decide) (by decide)

/-- `Pane > !Pane` matches where `!Pane` does not. -/
theorem negation_below_pane_misses : ¬ ∀ predicate other : KeyBindingContextPredicate,
    predicate.isSuperset other = true → ∀ contexts : List KeyContext,
      (other.depthOf contexts).isSome = true → (predicate.depthOf contexts).isSome = true := by
  intro hall
  have hmisses := hall (not (identifier "Pane"))
    (descendant (identifier "Pane") (not (identifier "Pane"))) (by decide)
    [[⟨"Pane", none⟩], [⟨"Editor", none⟩]] (by decide)
  revert hmisses
  decide

end OpenGpui.Keys.KeyBindingContextPredicate
