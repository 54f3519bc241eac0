/-
Printing context predicates, and what the printed text parses as.  Chains of one
operator are regrouped to the left; a descendant is printed without parentheses
wherever it stands.
-/
import Mathlib.Data.List.TakeWhile
import OpenGpui.Keys.PredicateParser

namespace OpenGpui.Keys

open PredicateOperator (precedenceNot)

/-- The text of a predicate by itself, among conjuncts and among disjuncts. -/
structure Printed where
  text : List Char
  asConjunct : List Char
  asDisjunct : List Char

variable (text : List Char)

def Printed.plain : Printed := ⟨text, text, text⟩

def parenthesized : List Char := '(' :: (text ++ [')'])

/-- The text of two operands with the operator between them. -/
def PredicateOperator.join (operator : PredicateOperator) (left right : List Char) : List Char :=
  left ++ ' ' :: (operator.text ++ ' ' :: right)

namespace KeyBindingContextPredicate

/-- Operands of a conjunction that are conjunctions are printed as more conjuncts, and
likewise for disjunctions. -/
def printed : KeyBindingContextPredicate → Printed
  | identifier name => .plain name.toList
  | equal left right => .plain (PredicateOperator.eq.join left.toList right.toList)
  | notEqual left right => .plain (PredicateOperator.neq.join left.toList right.toList)
  | descendant parent child =>
    .plain (PredicateOperator.child.join parent.printed.text child.printed.text)
  | not predicate =>
    match predicate with
    | identifier name => .plain ('!' :: name.toList)
    | _ => .plain ('!' :: parenthesized predicate.printed.text)
  | and left right =>
    let text := PredicateOperator.and.join left.printed.asConjunct right.printed.asConjunct
    ⟨text, text, parenthesized text⟩
  | or left right =>
    let text := PredicateOperator.or.join left.printed.asDisjunct right.printed.asDisjunct
    ⟨text, parenthesized text, text⟩

def display (predicate : KeyBindingContextPredicate) : List Char := predicate.printed.text

/-- What the text of a predicate parses as by itself, and what it makes of the
predicate before an operator. -/
structure Regrouped where
  tree : KeyBindingContextPredicate
  afterChild : KeyBindingContextPredicate → KeyBindingContextPredicate
  afterAnd : KeyBindingContextPredicate → KeyBindingContextPredicate
  afterOr : KeyBindingContextPredicate → KeyBindingContextPredicate

def Regrouped.single (tree : KeyBindingContextPredicate) : Regrouped :=
  ⟨tree, (descendant · tree), (and · tree), (or · tree)⟩

def regrouped : KeyBindingContextPredicate → Regrouped
  | descendant parent child =>
    { Regrouped.single (child.regrouped.afterChild parent.regrouped.tree) with
      afterChild := fun before =>
        child.regrouped.afterChild (parent.regrouped.afterChild before) }
  | and left right =>
    { Regrouped.single (right.regrouped.afterAnd left.regrouped.tree) with
      afterAnd := fun before => right.regrouped.afterAnd (left.regrouped.afterAnd before) }
  | or left right =>
    { Regrouped.single (right.regrouped.afterOr left.regrouped.tree) with
      afterOr := fun before => right.regrouped.afterOr (left.regrouped.afterOr before) }
  | not predicate => .single (not predicate.regrouped.tree)
  | predicate => .single predicate

def isDescendant : KeyBindingContextPredicate → Bool
  | descendant _ _ => true
  | _ => false

/-- No descendant is an operand of a conjunction or a disjunction. -/
def descendantsStandAlone : KeyBindingContextPredicate → Bool
  | descendant parent child => parent.descendantsStandAlone && child.descendantsStandAlone
  | not predicate => predicate.descendantsStandAlone
  | and left right | or left right =>
    !left.isDescendant && !right.isDescendant &&
      (left.descendantsStandAlone && right.descendantsStandAlone)
  | _ => true

end KeyBindingContextPredicate

variable (alphanumerics : Alphanumerics)

/-- A name as the parser reads it: a letter, digit, hyphen or underscore with whatever
name characters follow, or one operator character. -/
def IsName (name : String) : Prop :=
  ∃ next rest, name.toList = next :: rest ∧ ((alphanumerics.isIdentifierChar next = true ∧
      ∀ c ∈ rest, alphanumerics.isNameChar c = true) ∨
      (alphanumerics.isIdentifierChar next = false ∧
        Alphanumerics.isVimOperatorChar next = true ∧ rest = []))

namespace KeyBindingContextPredicate

def WellNamed : KeyBindingContextPredicate → Prop
  | identifier name => IsName alphanumerics name
  | equal left right | notEqual left right =>
    IsName alphanumerics left ∧ IsName alphanumerics right
  | descendant left right | and left right | or left right =>
    left.WellNamed ∧ right.WellNamed
  | not predicate => predicate.WellNamed

variable {alphanumerics}
variable {expr : List Char → Nat → PredicateParse} {source : List Char}

variable {parsed : KeyBindingContextPredicate × List Char}

theorem wellNamed_of_parsePrimary
    (hexpr : ∀ source minPrecedence parsed, expr source minPrecedence = .ok parsed →
      parsed.1.WellNamed alphanumerics) (h : parsePrimary alphanumerics expr source = .ok parsed) :
    parsed.1.WellNamed alphanumerics := by
  cases source with
  | nil => cases h
  | cons next source =>
    rw [parsePrimary] at h
    by_cases hopen : next = '('
    · rw [if_pos hopen, bind_eq_ok_iff] at h
      obtain ⟨inner, hinner, h⟩ := h
      have hnamed := hexpr _ _ _ hinner
      split at h
      · cases h
        exact hnamed
      · cases h
    · rw [if_neg hopen] at h
      by_cases hnot : next = '!'
      · rw [if_pos hnot, bind_eq_ok_iff] at h
        obtain ⟨inner, hinner, h⟩ := h
        have hnamed := hexpr _ _ _ hinner
        cases h
        exact hnamed
      · rw [if_neg hnot] at h
        by_cases hidentifier : alphanumerics.isIdentifierChar next = true
        · rw [if_pos hidentifier] at h
          cases h
          refine ⟨next, source.takeWhile alphanumerics.isNameChar,
            String.toList_ofList, .inl ⟨hidentifier, ?_⟩⟩
          intro c hc
          exact List.mem_takeWhile_imp hc
        · rw [if_neg hidentifier] at h
          by_cases hvim : Alphanumerics.isVimOperatorChar next = true
          · rw [if_pos hvim] at h
            cases h
            exact ⟨next, [], String.toList_ofList,
              .inr ⟨Bool.eq_false_iff.mpr hidentifier, hvim, rfl⟩⟩
          · rw [if_neg hvim] at h
            cases h

theorem wellNamed_of_construct {operator : PredicateOperator}
    {left right joined : KeyBindingContextPredicate} (hleft : left.WellNamed alphanumerics)
    (hright : right.WellNamed alphanumerics) (h : operator.construct left right = .ok joined) :
    joined.WellNamed alphanumerics := by
  cases operator with
  | eq | neq =>
    cases left <;> cases right <;> cases h
    exact ⟨hleft, hright⟩
  | _ =>
    cases h
    exact ⟨hleft, hright⟩

variable {predicate : KeyBindingContextPredicate}

theorem wellNamed_of_parseOperators
    (hexpr : ∀ source minPrecedence parsed, expr source minPrecedence = .ok parsed →
      parsed.1.WellNamed alphanumerics) {minPrecedence fuel : Nat}
    (hpredicate : predicate.WellNamed alphanumerics)
    (h : parseOperators expr minPrecedence fuel predicate source = .ok parsed) :
    parsed.1.WellNamed alphanumerics := by
  induction fuel generalizing predicate source with
  | zero => cases h
  | succ fuel ih =>
    rw [parseOperators] at h
    cases hfind : PredicateOperator.find source minPrecedence with
    | none =>
      rw [hfind] at h
      cases h
      exact hpredicate
    | some operator =>
      simp only [hfind, bind_eq_ok_iff] at h
      obtain ⟨right, hright, joined, hjoined, h⟩ := h
      exact ih (wellNamed_of_construct hpredicate (hexpr _ _ _ hright) hjoined) h

theorem wellNamed_of_parseExprWith (fuel : Nat) {minPrecedence : Nat}
    (h : parseExprWith alphanumerics fuel source minPrecedence = .ok parsed) :
    parsed.1.WellNamed alphanumerics := by
  induction fuel generalizing source minPrecedence parsed with
  | zero => cases h
  | succ fuel ih =>
    rw [parseExprWith, bind_eq_ok_iff] at h
    obtain ⟨primary, hprimary, h⟩ := h
    exact wellNamed_of_parseOperators (fun _ _ _ => ih)
      (wellNamed_of_parsePrimary (fun _ _ _ => ih) hprimary) h

theorem wellNamed_of_parse (h : parse alphanumerics source = .ok predicate) :
    predicate.WellNamed alphanumerics := by
  rw [parse, bind_eq_ok_iff] at h
  obtain ⟨parsed, hparsed, h⟩ := h
  split at h
  · cases h
    exact wellNamed_of_parseExprWith _ hparsed
  · cases h

end KeyBindingContextPredicate

end OpenGpui.Keys
