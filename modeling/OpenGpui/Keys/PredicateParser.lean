/-
The parser of context predicates: a primary expression, then operators as long as they
bind tightly enough.
-/
import OpenGpui.Keys.Binding
import OpenGpui.Library.Primitives

namespace OpenGpui.Keys

open List Nat

/-- The letters and digits of all scripts.  White space and the characters of the
predicate language are not among them. -/
structure Alphanumerics where
  isAlphanumeric : Char → Bool
  not_whitespace : ∀ c, isAlphanumeric c = true → isWhitespace c = false
  not_punctuation : ∀ c ∈ ['(', ')', '!', '&', '|', '=', '>', '<', '~', '"', '?'],
    isAlphanumeric c = false

inductive PredicateParseError where
  | unexpectedEnd
  | unexpectedCharacter (character : Char)
  | expectedClosingParenthesis
  | operandsMustBeIdentifiers (operator : String)
  | outOfFuel
deriving DecidableEq

inductive PredicateOperator where
  | child
  | and
  | or
  | eq
  | neq

namespace PredicateOperator

/-- In the order in which the parser tries them. -/
def all : List PredicateOperator := [child, and, or, eq, neq]

def text : PredicateOperator → List Char
  | child => ['>']
  | and => ['&', '&']
  | or => ['|', '|']
  | eq => ['=', '=']
  | neq => ['!', '=']

def precedence : PredicateOperator → Nat
  | child => 1
  | or => 2
  | and => 3
  | eq => 4
  | neq => 4

def precedenceNot : Nat := 5

/-- The predicate an operator makes of its operands. -/
def construct : PredicateOperator → KeyBindingContextPredicate →
    KeyBindingContextPredicate → Except PredicateParseError KeyBindingContextPredicate
  | child, left, right => .ok (.descendant left right)
  | and, left, right => .ok (.and left right)
  | or, left, right => .ok (.or left right)
  | eq, .identifier left, .identifier right => .ok (.equal left right)
  | eq, _, _ => .error (.operandsMustBeIdentifiers "==")
  | neq, .identifier left, .identifier right => .ok (.notEqual left right)
  | neq, _, _ => .error (.operandsMustBeIdentifiers "!=")

/-- The operator a source starts with, if it binds at least as tightly as asked. -/
def find (source : List Char) (minPrecedence : Nat) : Option PredicateOperator :=
  all.find? fun operator =>
    operator.text.isPrefixOf source && decide (minPrecedence ≤ operator.precedence)

end PredicateOperator

def skipWhitespace (source : List Char) : List Char := source.dropWhile isWhitespace

namespace Alphanumerics

variable (alphanumerics : Alphanumerics) (c : Char)

def isIdentifierChar : Bool := alphanumerics.isAlphanumeric c || c == '_' || c == '-'

def isVimOperatorChar : Bool := c == '>' || c == '<' || c == '~' || c == '"' || c == '?'

def isNameChar : Bool := alphanumerics.isIdentifierChar c || isVimOperatorChar c

end Alphanumerics

abbrev PredicateParse := Except PredicateParseError (KeyBindingContextPredicate × List Char)

namespace KeyBindingContextPredicate

variable (alphanumerics : Alphanumerics)

/-- A primary expression; expressions in it are parsed by the given function. -/
def parsePrimary (parseExpr : List Char → Nat → PredicateParse) :
    List Char → PredicateParse
  | [] => .error .unexpectedEnd
  | next :: source =>
    if next = '(' then do
      let parsed ← parseExpr (skipWhitespace source) 0
      match parsed.2 with
      | ')' :: stripped => return (parsed.1, skipWhitespace stripped)
      | _ => throw .expectedClosingParenthesis
    else if next = '!' then do
      let parsed ← parseExpr (skipWhitespace source) PredicateOperator.precedenceNot
      return (.not parsed.1, parsed.2)
    else if alphanumerics.isIdentifierChar next then
      .ok (.identifier (.ofList (next :: source.takeWhile alphanumerics.isNameChar)),
        skipWhitespace (source.dropWhile alphanumerics.isNameChar))
    else if Alphanumerics.isVimOperatorChar next then
      .ok (.identifier (.ofList [next]), skipWhitespace source)
    else .error (.unexpectedCharacter next)

/-- Operators and their right operands as long as there are some, with the count of
rounds that are left. -/
def parseOperators (parseExpr : List Char → Nat → PredicateParse)
    (minPrecedence : Nat) : Nat → KeyBindingContextPredicate → List Char → PredicateParse
  | 0, _, _ => .error .outOfFuel
  | fuel + 1, predicate, source =>
    match PredicateOperator.find source minPrecedence with
    | none => .ok (predicate, source)
    | some operator => do
        let right ← parseExpr (skipWhitespace (source.drop operator.text.length))
          (operator.precedence + 1)
        let joined ← operator.construct predicate right.1
        parseOperators parseExpr minPrecedence fuel joined right.2

def parseExprWith : Nat → List Char → Nat → PredicateParse
  | 0, _, _ => .error .outOfFuel
  | fuel + 1, source, minPrecedence => do
      let primary ← parsePrimary alphanumerics (parseExprWith fuel) source
      parseOperators (parseExprWith fuel) minPrecedence (fuel + 1) primary.1 primary.2

/-- Every call is for a shorter source, so its length is fuel enough. -/
def parseExpr (source : List Char) (minPrecedence : Nat) : PredicateParse :=
  parseExprWith alphanumerics (source.length + 1) source minPrecedence

def parse (source : List Char) : Except PredicateParseError KeyBindingContextPredicate := do
  let parsed ← parseExpr alphanumerics (skipWhitespace source) 0
  match parsed.2 with
  | [] => return parsed.1
  | next :: _ => throw (.unexpectedCharacter next)

section Fuel

/-- Parsing goes forward. -/
def Shortens (expr : List Char → Nat → PredicateParse) : Prop :=
  ∀ source minPrecedence parsed, expr source minPrecedence = .ok parsed →
    parsed.2.length < source.length

variable {ε α β : Type} {next : α → Except ε β} {first : Except ε α}

theorem bind_eq_ok_iff {result : β} : first >>= next = .ok result ↔
      ∃ value, first = .ok value ∧ next value = .ok result := by
  cases first with
  | error error =>
    constructor
    · intro h
      cases h
    · rintro ⟨value, h, _⟩
      cases h
  | ok value =>
    constructor
    · intro h
      exact ⟨value, rfl, h⟩
    · rintro ⟨other, h, hnext⟩
      cases h
      exact hnext

theorem length_skipWhitespace_le (source : List Char) :
    (skipWhitespace source).length ≤ source.length := (dropWhile_suffix _).length_le

variable {source : List Char} {minPrecedence : Nat}

theorem length_drop_find_lt {operator : PredicateOperator}
    (h : PredicateOperator.find source minPrecedence = some operator) :
    (skipWhitespace (source.drop operator.text.length)).length < source.length := by
  have hfound := find?_some h
  rw [Bool.and_eq_true, isPrefixOf_iff_prefix] at hfound
  have hle := hfound.1.length_le
  have hpos : 0 < operator.text.length := by cases operator <;> decide
  have hskip := length_skipWhitespace_le (source.drop operator.text.length)
  rw [length_drop] at hskip
  omega

variable {alphanumerics}
variable {expr expr' : List Char → Nat → PredicateParse}

variable {parsed : KeyBindingContextPredicate × List Char}

theorem parsePrimary_shortens (hexpr : Shortens expr)
    (h : parsePrimary alphanumerics expr source = .ok parsed) :
    parsed.2.length < source.length := by
  cases source with
  | nil => cases h
  | cons next source =>
    rw [parsePrimary] at h
    have hskip := length_skipWhitespace_le source
    by_cases hopen : next = '('
    · rw [if_pos hopen, bind_eq_ok_iff] at h
      obtain ⟨inner, hinner, h⟩ := h
      have hlt := hexpr _ _ _ hinner
      split at h
      · next stripped hrest =>
          cases h
          rw [hrest, length_cons] at hlt
          have hle := length_skipWhitespace_le stripped
          rw [length_cons]
          show (skipWhitespace stripped).length < _
          omega
      · cases h
    · rw [if_neg hopen] at h
      by_cases hnot : next = '!'
      · rw [if_pos hnot, bind_eq_ok_iff] at h
        obtain ⟨inner, hinner, h⟩ := h
        have hlt := hexpr _ _ _ hinner
        cases h
        rw [length_cons]
        show inner.2.length < _
        omega
      · rw [if_neg hnot] at h
        split at h
        · cases h
          have hdrop := (@dropWhile_suffix _ source alphanumerics.isNameChar).length_le
          have hle := length_skipWhitespace_le (source.dropWhile alphanumerics.isNameChar)
          rw [length_cons]
          show (skipWhitespace _).length < _
          omega
        · split at h
          · cases h
            rw [length_cons]
            show (skipWhitespace source).length < _
            omega
          · cases h

variable {fuel : Nat} {predicate : KeyBindingContextPredicate}

theorem parseOperators_le (hexpr : Shortens expr)
    (h : parseOperators expr minPrecedence fuel predicate source = .ok parsed) :
    parsed.2.length ≤ source.length := by
  induction fuel generalizing predicate source with
  | zero => cases h
  | succ fuel ih =>
    rw [parseOperators] at h
    cases hfind : PredicateOperator.find source minPrecedence with
    | none =>
      rw [hfind] at h
      cases h
      exact le_refl _
    | some operator =>
      simp only [hfind, bind_eq_ok_iff] at h
      obtain ⟨right, hright, joined, _, h⟩ := h
      have hlt := hexpr _ _ _ hright
      have hdrop := length_drop_find_lt hfind
      have hle := ih h
      omega

theorem parseExprWith_shortens (fuel : Nat) : Shortens (parseExprWith alphanumerics fuel) := by
  induction fuel with
  | zero =>
    intro source minPrecedence parsed h
    cases h
  | succ fuel ih =>
    intro source minPrecedence parsed h
    rw [parseExprWith, bind_eq_ok_iff] at h
    obtain ⟨primary, hprimary, h⟩ := h
    have hlt := parsePrimary_shortens ih hprimary
    have hle := parseOperators_le ih h
    omega

/-- A primary expression depends on what shorter sources parse as. -/
theorem parsePrimary_congr (hsame : ∀ shorter : List Char, shorter.length < source.length →
      ∀ minPrecedence, expr shorter minPrecedence = expr' shorter minPrecedence) :
    parsePrimary alphanumerics expr source = parsePrimary alphanumerics expr' source := by
  cases source with
  | nil => rfl
  | cons next source =>
    have hlt : (skipWhitespace source).length < (next :: source).length :=
      lt_succ_of_le (length_skipWhitespace_le source)
    rw [parsePrimary, parsePrimary, hsame _ hlt, hsame _ hlt]

theorem parseOperators_congr (hexpr : Shortens expr) {fuel' : Nat}
    (hsame : ∀ shorter : List Char, shorter.length < source.length →
      ∀ minPrecedence, expr shorter minPrecedence = expr' shorter minPrecedence)
    (hfuel : source.length < fuel) (hfuel' : source.length < fuel') :
    parseOperators expr minPrecedence fuel predicate source =
      parseOperators expr' minPrecedence fuel' predicate source := by
  induction fuel generalizing fuel' predicate source with
  | zero => exact absurd hfuel (not_lt_zero _)
  | succ fuel ih =>
    cases fuel' with
    | zero => exact absurd hfuel' (not_lt_zero _)
    | succ fuel' =>
      rw [parseOperators, parseOperators]
      cases hfind : PredicateOperator.find source minPrecedence with
      | none => rfl
      | some operator =>
        have hdrop := length_drop_find_lt hfind
        simp only [← hsame _ hdrop]
        cases hright : expr (skipWhitespace (source.drop operator.text.length))
            (operator.precedence + 1) with
        | error error => rfl
        | ok right =>
          have hlt := hexpr _ _ _ hright
          cases hjoined : operator.construct predicate right.1 with
          | error error =>
            show (operator.construct predicate right.1 >>= _) =
              (operator.construct predicate right.1 >>= _)
            rw [hjoined]
            rfl
          | ok joined =>
            show (operator.construct predicate right.1 >>= _) =
              (operator.construct predicate right.1 >>= _)
            rw [hjoined]
            exact ih (fun shorter hshorter => hsame shorter (by omega))
              (by omega) (by omega)

theorem parseExprWith_congr {fuel' : Nat}
    (hfuel : source.length < fuel) (hfuel' : source.length < fuel') :
    parseExprWith alphanumerics fuel source minPrecedence =
      parseExprWith alphanumerics fuel' source minPrecedence := by
  induction fuel generalizing fuel' source minPrecedence with
  | zero => exact absurd hfuel (not_lt_zero _)
  | succ fuel ih =>
    cases fuel' with
    | zero => exact absurd hfuel' (not_lt_zero _)
    | succ fuel' =>
      have hsame : ∀ shorter : List Char, shorter.length < source.length →
          ∀ minPrecedence, parseExprWith alphanumerics fuel shorter minPrecedence =
            parseExprWith alphanumerics fuel' shorter minPrecedence :=
        fun shorter hshorter minPrecedence => ih (by omega) (by omega)
      rw [parseExprWith, parseExprWith, parsePrimary_congr hsame]
      cases hprimary : parsePrimary alphanumerics (parseExprWith alphanumerics fuel') source with
      | error error => rfl
      | ok primary =>
        have hlt := parsePrimary_shortens (parseExprWith_shortens fuel') hprimary
        exact parseOperators_congr (parseExprWith_shortens fuel)
          (fun shorter hshorter => hsame shorter (by omega)) (by omega) (by omega)

/-- Parsing shorter sources does not run out of fuel. -/
def NeverOutOfFuel (expr : List Char → Nat → PredicateParse) (bound : Nat) : Prop :=
  ∀ source minPrecedence, source.length < bound → expr source minPrecedence ≠ .error .outOfFuel

theorem bind_ne_error {error : ε} (hfirst : first ≠ .error error)
    (hnext : ∀ value, first = .ok value → next value ≠ .error error) :
    first >>= next ≠ .error error := by
  cases first with
  | error other =>
    intro h
    exact hfirst (congrArg Except.error (Except.error.inj h))
  | ok value => exact hnext value rfl

theorem parsePrimary_ne_outOfFuel (hexpr : NeverOutOfFuel expr source.length) :
    parsePrimary alphanumerics expr source ≠ .error .outOfFuel := by
  cases source with
  | nil => nofun
  | cons next source =>
    have hlt : (skipWhitespace source).length < (next :: source).length :=
      lt_succ_of_le (length_skipWhitespace_le source)
    rw [parsePrimary]
    by_cases hopen : next = '('
    · rw [if_pos hopen]
      apply bind_ne_error (hexpr _ _ hlt)
      intro parsed _
      split <;> nofun
    · rw [if_neg hopen]
      by_cases hnot : next = '!'
      · rw [if_pos hnot]
        apply bind_ne_error (hexpr _ _ hlt)
        nofun
      · rw [if_neg hnot]
        split
        · nofun
        · split <;> nofun

theorem construct_ne_outOfFuel (operator : PredicateOperator)
    (left right : KeyBindingContextPredicate) :
    operator.construct left right ≠ .error .outOfFuel := by
  cases operator with
  | eq | neq => cases left <;> cases right <;> nofun
  | _ => nofun

theorem parseOperators_ne_outOfFuel (hshortens : Shortens expr)
    (hexpr : NeverOutOfFuel expr source.length) (hfuel : source.length < fuel) :
    parseOperators expr minPrecedence fuel predicate source ≠ .error .outOfFuel := by
  induction fuel generalizing predicate source with
  | zero => exact absurd hfuel (not_lt_zero _)
  | succ fuel ih =>
    rw [parseOperators]
    cases hfind : PredicateOperator.find source minPrecedence with
    | none => nofun
    | some operator =>
      have hdrop := length_drop_find_lt hfind
      apply bind_ne_error (hexpr _ _ hdrop)
      intro right hright
      have hlt := hshortens _ _ _ hright
      apply bind_ne_error (construct_ne_outOfFuel _ _ _)
      intro joined _
      exact ih (fun shorter minPrecedence hshorter =>
        hexpr shorter minPrecedence (by omega)) (by omega)

theorem parseExprWith_ne_outOfFuel (fuel : Nat) :
    NeverOutOfFuel (parseExprWith alphanumerics fuel) fuel := by
  induction fuel with
  | zero =>
    intro source minPrecedence hlt
    exact absurd hlt (not_lt_zero _)
  | succ fuel ih =>
    intro source minPrecedence hlt
    have hbelow : NeverOutOfFuel (parseExprWith alphanumerics fuel) source.length :=
      fun shorter minPrecedence hshorter => ih shorter minPrecedence (by omega)
    apply bind_ne_error (parsePrimary_ne_outOfFuel hbelow)
    intro primary hprimary
    have hless := parsePrimary_shortens (parseExprWith_shortens fuel) hprimary
    exact parseOperators_ne_outOfFuel (parseExprWith_shortens fuel)
      (fun shorter minPrecedence hshorter => hbelow shorter minPrecedence (by omega))
        (by omega)

end Fuel

variable {alphanumerics}

/-- The operators after a predicate, with fuel for all of the source. -/
def parseRest (alphanumerics : Alphanumerics) (minPrecedence : Nat)
    (predicate : KeyBindingContextPredicate) (source : List Char) : PredicateParse :=
  parseOperators (parseExpr alphanumerics) minPrecedence (source.length + 1) predicate source

theorem parseExpr_shortens : Shortens (parseExpr alphanumerics) :=
  fun _ _ _ h => parseExprWith_shortens _ _ _ _ h

variable {source : List Char} {minPrecedence : Nat}

theorem parseExpr_eq_with {fuel : Nat}
    (h : source.length < fuel) : parseExprWith alphanumerics fuel source minPrecedence =
      parseExpr alphanumerics source minPrecedence :=
  parseExprWith_congr h (lt_succ_self _)

theorem parseExpr_eq (source : List Char) (minPrecedence : Nat) :
    parseExpr alphanumerics source minPrecedence =
      (parsePrimary alphanumerics (parseExpr alphanumerics) source).bind fun primary =>
        parseRest alphanumerics minPrecedence primary.1 primary.2 := by
  have hsame : ∀ shorter : List Char, shorter.length < source.length →
      ∀ minPrecedence, parseExprWith alphanumerics source.length shorter minPrecedence =
        parseExpr alphanumerics shorter minPrecedence :=
    fun shorter hshorter _ => parseExpr_eq_with hshorter
  rw [parseExpr, parseExprWith, parsePrimary_congr hsame]
  cases hprimary : parsePrimary alphanumerics (parseExpr alphanumerics) source with
  | error error => rfl
  | ok primary =>
    have hlt := parsePrimary_shortens parseExpr_shortens hprimary
    exact parseOperators_congr (parseExprWith_shortens _)
      (fun shorter hshorter => hsame shorter (by omega)) (by omega) (lt_succ_self _)

theorem parseRest_of_none {predicate : KeyBindingContextPredicate} (h :
    PredicateOperator.find source minPrecedence = none) :
    parseRest alphanumerics minPrecedence predicate source = .ok (predicate, source) := by
  rw [parseRest, parseOperators, h]

theorem parseRest_of_some {predicate joined : KeyBindingContextPredicate} {operator :
    PredicateOperator} {right : KeyBindingContextPredicate × List Char}
    (h : PredicateOperator.find source minPrecedence = some operator)
    (hright : parseExpr alphanumerics (skipWhitespace (source.drop operator.text.length))
      (operator.precedence + 1) = .ok right)
    (hjoined : operator.construct predicate right.1 = .ok joined) :
    parseRest alphanumerics minPrecedence predicate source =
      parseRest alphanumerics minPrecedence joined right.2 := by
  have hdrop := length_drop_find_lt h
  have hlt := parseExpr_shortens _ _ _ hright
  rw [parseRest, parseOperators, h]
  simp only [hright]
  show (operator.construct predicate right.1 >>= _) = _
  rw [hjoined]
  exact parseOperators_congr parseExpr_shortens (fun _ _ _ => rfl) (by omega)
    (lt_succ_self _)

/-- Parsing a predicate always ends by itself. -/
theorem parse_ne_outOfFuel (source : List Char) :
    parse alphanumerics source ≠ .error .outOfFuel := by
  apply bind_ne_error (parseExprWith_ne_outOfFuel _ _ _ (lt_succ_self _))
  intro parsed _
  split <;> nofun

end KeyBindingContextPredicate

end OpenGpui.Keys
