/-
What is printed parses again, as the regrouped predicate, as long as no descendant is an
operand of `&&` or `||`: the printer leaves out the parentheses it needs there.
-/
import OpenGpui.Keys.PredicateMeaning

namespace OpenGpui.Keys

open Alphanumerics KeyBindingContextPredicate PredicateOperator List Nat

section Reading

variable (alphanumerics : Alphanumerics)

/-- No operator that binds at least as tightly comes next. -/
def Stops (minPrecedence : Nat) (source : List Char) : Prop :=
  PredicateOperator.find source minPrecedence = none

variable (source : List Char)

/-- A name ends before the source. -/
def EndsName : Prop := ∀ c ∈ source.head?, alphanumerics.isNameChar c = false

/-- A text is read as a predicate wherever operators of its level are. -/
structure ParsesAs (text : List Char) (tree : KeyBindingContextPredicate) (level : Nat) :
    Prop where
  head : ∃ first rest, text = first :: rest ∧ isWhitespace first = false
  parses : ∀ minPrecedence rest, minPrecedence ≤ level → EndsName alphanumerics rest →
    Stops (level + 1) (skipWhitespace rest) →
      parseExpr alphanumerics (text ++ rest) minPrecedence =
        parseRest alphanumerics minPrecedence tree (skipWhitespace rest)

/-- An operator and a text are read as a step on the predicate before them. -/
def Continues (operator : PredicateOperator) (text : List Char)
    (after : KeyBindingContextPredicate → KeyBindingContextPredicate) : Prop :=
  ∀ before minPrecedence rest, minPrecedence ≤ operator.precedence →
    EndsName alphanumerics rest → Stops (operator.precedence + 1) (skipWhitespace rest) →
      parseRest alphanumerics minPrecedence before
          (operator.text ++ ' ' :: (text ++ rest)) =
        parseRest alphanumerics minPrecedence (after before)
          (skipWhitespace rest)

variable {alphanumerics}

theorem stops_nil (minPrecedence : Nat) : Stops minPrecedence [] := by
  simp [Stops, PredicateOperator.find, PredicateOperator.all, PredicateOperator.text]

theorem stops_closing (minPrecedence : Nat) (source : List Char) :
    Stops minPrecedence (')' :: source) := by
  simp [Stops, PredicateOperator.find, PredicateOperator.all, PredicateOperator.text]

variable {minPrecedence : Nat}

theorem Stops.mono {minPrecedence' : Nat} {source : List Char}
    (h : Stops minPrecedence source) (hle : minPrecedence ≤ minPrecedence') :
    Stops minPrecedence' source := by
  rw [Stops, PredicateOperator.find, find?_eq_none] at h ⊢
  intro operator hoperator hfound
  apply h operator hoperator
  rw [Bool.and_eq_true, decide_eq_true_iff] at hfound ⊢
  exact ⟨hfound.1, hle.trans hfound.2⟩

/-- No operator binds more tightly than comparisons. -/
theorem stops_of_lt (h : 4 < minPrecedence) (source : List Char) : Stops minPrecedence source := by
  rw [Stops, PredicateOperator.find, find?_eq_none]
  intro operator _ hfound
  rw [Bool.and_eq_true, decide_eq_true_iff] at hfound
  have hle : operator.precedence ≤ 4 := by cases operator <;> decide
  omega

theorem find_text {operator : PredicateOperator}
    (h : minPrecedence ≤ operator.precedence) (source : List Char) :
    PredicateOperator.find (operator.text ++ source) minPrecedence = some operator := by
  cases operator <;>
    simp_all [PredicateOperator.find, PredicateOperator.all, PredicateOperator.text,
      PredicateOperator.precedence]

theorem stops_text {operator : PredicateOperator}
    (h : operator.precedence < minPrecedence) (source : List Char) :
    Stops minPrecedence (operator.text ++ source) := by
  have hloose : decide (minPrecedence ≤ operator.precedence) = false :=
    decide_eq_false (Nat.not_le_of_lt h)
  cases operator <;>
    simpa [Stops, PredicateOperator.find, PredicateOperator.all, PredicateOperator.text]
      using hloose

theorem skipWhitespace_of_head {text : List Char}
    (h : ∃ first rest, text = first :: rest ∧ isWhitespace first = false)
    (source : List Char) : skipWhitespace (text ++ source) = text ++ source := by
  obtain ⟨first, rest, rfl, hfirst⟩ := h
  rw [skipWhitespace, cons_append, dropWhile_cons_of_neg]
  rw [hfirst]
  exact Bool.false_ne_true

theorem skipWhitespace_space : skipWhitespace (' ' :: source) = skipWhitespace source := by
  rfl

theorem skipWhitespace_separator (operator : PredicateOperator) (source : List Char) :
    skipWhitespace (' ' :: (operator.text ++ source)) = operator.text ++ source := by
  apply skipWhitespace_of_head
  cases operator with
  | child | and | or | eq | neq => exact ⟨_, _, rfl, by decide⟩

theorem isNameChar_eq_false {c : Char} (halpha : alphanumerics.isAlphanumeric c = false)
    (hother : (c == '_' || c == '-' || isVimOperatorChar c) = false) :
    alphanumerics.isNameChar c = false := by
  simp only [Bool.or_eq_false_iff] at hother
  simp only [isNameChar, isIdentifierChar, halpha, hother, Bool.or_self]

theorem endsName_space : EndsName alphanumerics (' ' :: source) := by
  intro c hc
  cases hc
  apply isNameChar_eq_false _ (by decide)
  by_contra halpha
  rw [Bool.not_eq_false] at halpha
  have hwhite := alphanumerics.not_whitespace _ halpha
  revert hwhite
  decide

theorem endsName_closing : EndsName alphanumerics (')' :: source) := by
  intro c hc
  cases hc
  exact isNameChar_eq_false (alphanumerics.not_punctuation _ (by decide)) (by decide)

theorem endsName_nil : EndsName alphanumerics [] := by
  intro c hc
  cases hc

section Pieces

variable {text left right : List Char} {tree leftTree : KeyBindingContextPredicate}
variable {level : Nat} {operator : PredicateOperator}

theorem ParsesAs.weaken (h : ParsesAs alphanumerics text tree level) {level' : Nat}
    (hle : level' ≤ level) : ParsesAs alphanumerics text tree level' where
  head := h.head
  parses minPrecedence rest hmin hends hstops :=
    h.parses minPrecedence rest (hmin.trans hle) hends (hstops.mono (succ_le_succ hle))

variable {rest : List Char}

section

variable (h : ParsesAs alphanumerics text tree level)

include h

/-- As an operand the text is read up to where operators of its level end. -/
theorem ParsesAs.operand {minPrecedence : Nat}
    (hlevel : minPrecedence ≤ level) (hends : EndsName alphanumerics rest)
    (hstops : Stops minPrecedence (skipWhitespace rest)) :
    parseExpr alphanumerics (text ++ rest) minPrecedence = .ok (tree, skipWhitespace rest) := by
  rw [h.parses _ _ hlevel hends (hstops.mono (by omega))]
  exact parseRest_of_none hstops

theorem ParsesAs.parseRest_operator
    (hlevel : operator.precedence + 1 ≤ level) {before joined : KeyBindingContextPredicate}
    (hjoined : operator.construct before tree = .ok joined) {minPrecedence : Nat}
    (hmin : minPrecedence ≤ operator.precedence) (hends : EndsName alphanumerics rest)
    (hstops : Stops (operator.precedence + 1) (skipWhitespace rest)) :
    parseRest alphanumerics minPrecedence before (operator.text ++ ' ' :: (text ++ rest)) =
      parseRest alphanumerics minPrecedence joined (skipWhitespace rest) := by
  have hdrop : skipWhitespace ((operator.text ++ ' ' :: (text ++ rest)).drop
      operator.text.length) = text ++ rest := by
    rw [drop_left, skipWhitespace_space, skipWhitespace_of_head h.head]
  have hright := h.operand hlevel hends hstops
  rw [← hdrop] at hright
  exact parseRest_of_some (find_text hmin _) hright hjoined

theorem ParsesAs.continues (hlevel : operator.precedence + 1 ≤ level)
    {after : KeyBindingContextPredicate → KeyBindingContextPredicate}
    (hafter : ∀ before, operator.construct before tree = .ok (after before)) :
    Continues alphanumerics operator text after :=
  fun before _ _ hmin hends hstops =>
    h.parseRest_operator hlevel (hafter before) hmin hends hstops

end

theorem stops_join (operator : PredicateOperator) (source : List Char) :
    Stops (operator.precedence + 1) (skipWhitespace (' ' :: (operator.text ++ source))) := by
  rw [skipWhitespace_separator]
  exact stops_text (lt_succ_self _) _

theorem join_append (operator : PredicateOperator) (left right rest : List Char) :
    operator.join left right ++ rest =
      left ++ ' ' :: (operator.text ++ ' ' :: (right ++ rest)) := by
  simp [PredicateOperator.join]

/-- Two steps of one operator make one. -/
theorem Continues.join {leftAfter rightAfter :
      KeyBindingContextPredicate → KeyBindingContextPredicate}
    (hleft : Continues alphanumerics operator left leftAfter)
    (hright : Continues alphanumerics operator right rightAfter) :
    Continues alphanumerics operator (operator.join left right) fun before =>
      rightAfter (leftAfter before) := by
  intro before minPrecedence rest hmin hends hstops
  rw [join_append, hleft before minPrecedence _ hmin (endsName_space _) (stops_join _ _),
    skipWhitespace_separator]
  exact hright _ _ _ hmin hends hstops

/-- A predicate followed by a step. -/
theorem ParsesAs.join (hleft : ParsesAs alphanumerics left leftTree level)
    (hlevel : operator.precedence ≤ level)
    {after : KeyBindingContextPredicate → KeyBindingContextPredicate}
    (hright : Continues alphanumerics operator right after) :
    ParsesAs alphanumerics (operator.join left right) (after leftTree) operator.precedence where
  head := by
    obtain ⟨first, rest, hfirst, hwhite⟩ := hleft.head
    exact ⟨first, _, by rw [PredicateOperator.join, hfirst, cons_append], hwhite⟩
  parses minPrecedence rest hmin hends hstops := by
    rw [join_append, hleft.parses _ _ (hmin.trans hlevel) (endsName_space _)
      ((stops_join operator _).mono (succ_le_succ hlevel)), skipWhitespace_separator]
    exact hright _ _ _ hmin hends hstops

/-- Anything in parentheses is a primary expression. -/
theorem ParsesAs.parenthesized (h : ParsesAs alphanumerics text tree level) :
    ParsesAs alphanumerics (parenthesized text) tree precedenceNot where
  head := ⟨_, _, rfl, by decide⟩
  parses minPrecedence rest _ _ _ := by
    have hinner : parseExpr alphanumerics
        (skipWhitespace (text ++ (')' :: rest))) 0 = .ok (tree, ')' :: rest) := by
      rw [skipWhitespace_of_head h.head]
      have hoperand := h.operand (zero_le _) (endsName_closing rest)
        (by exact stops_closing 0 rest)
      exact hoperand
    have hsource : OpenGpui.Keys.parenthesized text ++ rest = '(' :: (text ++ (')' :: rest)) := by
      simp [OpenGpui.Keys.parenthesized]
    rw [hsource, parseExpr_eq, parsePrimary, hinner]
    rfl

theorem ParsesAs.negated (h : ParsesAs alphanumerics text tree precedenceNot) :
    ParsesAs alphanumerics ('!' :: text) (.not tree) precedenceNot where
  head := ⟨_, _, rfl, by decide⟩
  parses minPrecedence rest _ hends _ := by
    have hinner : parseExpr alphanumerics (skipWhitespace (text ++ rest)) precedenceNot =
          .ok (tree, skipWhitespace rest) := by
      rw [skipWhitespace_of_head h.head]
      exact h.operand (le_refl _) hends (stops_of_lt (by decide) _)
    rw [cons_append, parseExpr_eq, parsePrimary, hinner]
    rfl

variable {c : Char}

theorem isIdentifierChar_punctuation
    (h : c ∈ ['(', ')', '!', '&', '|', '=', '>', '<', '~', '"', '?']) :
    alphanumerics.isIdentifierChar c = false := by
  rw [isIdentifierChar, alphanumerics.not_punctuation c h]
  simp only [mem_cons, not_mem_nil, or_false] at h
  rcases h with rfl | rfl | rfl | rfl | rfl | rfl | rfl | rfl | rfl | rfl | rfl <;> rfl

theorem isWhitespace_of_identifierChar
    (h : alphanumerics.isIdentifierChar c = true) : isWhitespace c = false := by
  rw [isIdentifierChar, Bool.or_eq_true, Bool.or_eq_true, beq_iff_eq, beq_iff_eq] at h
  rcases h with (halpha | rfl) | rfl
  · exact alphanumerics.not_whitespace c halpha
  · decide
  · decide

theorem vim_char_cases (h : isVimOperatorChar c = true) :
    c = '>' ∨ c = '<' ∨ c = '~' ∨ c = '"' ∨ c = '?' := by
  simpa [isVimOperatorChar, or_assoc] using h

/-- A name ends where no name character follows. -/
theorem parsePrimary_name {next : Char} {tail : List Char}
    (hidentifier : alphanumerics.isIdentifierChar next = true)
    (htail : ∀ c ∈ tail, alphanumerics.isNameChar c = true)
    (hends : EndsName alphanumerics rest) (expr : List Char → Nat → PredicateParse) :
    parsePrimary alphanumerics expr (next :: (tail ++ rest)) =
      .ok (.identifier (.ofList (next :: tail)), skipWhitespace rest) := by
  have hopen : next ≠ '(' := by
    rintro rfl
    rw [isIdentifierChar_punctuation (by decide)] at hidentifier
    cases hidentifier
  have hnot : next ≠ '!' := by
    rintro rfl
    rw [isIdentifierChar_punctuation (by decide)] at hidentifier
    cases hidentifier
  have hstop : rest.takeWhile alphanumerics.isNameChar = [] ∧
      rest.dropWhile alphanumerics.isNameChar = rest := by
    cases rest with
    | nil => exact ⟨rfl, rfl⟩
    | cons c rest =>
      have hc : ¬alphanumerics.isNameChar c = true := by
        rw [hends c rfl]
        exact Bool.false_ne_true
      exact ⟨takeWhile_cons_of_neg hc, dropWhile_cons_of_neg hc⟩
  rw [parsePrimary, if_neg hopen, if_neg hnot, if_pos hidentifier, takeWhile_append_of_pos
    htail, dropWhile_append_of_pos htail, hstop.1, hstop.2, append_nil]

theorem parsePrimary_operatorChar {next : Char}
    (hidentifier : alphanumerics.isIdentifierChar next = false)
    (hvim : isVimOperatorChar next = true) (rest : List Char)
    (expr : List Char → Nat → PredicateParse) :
    parsePrimary alphanumerics expr (next :: rest) =
      .ok (.identifier (.ofList [next]), skipWhitespace rest) := by
  have hopen : next ≠ '(' := by
    rintro rfl
    revert hvim
    decide
  have hnot : next ≠ '!' := by
    rintro rfl
    revert hvim
    decide
  have hletter : ¬alphanumerics.isIdentifierChar next = true := by
    rw [hidentifier]
    exact Bool.false_ne_true
  rw [parsePrimary, if_neg hopen, if_neg hnot, if_neg hletter, if_pos hvim]

theorem parsesAs_name {name : String} (h : IsName alphanumerics name) :
    ParsesAs alphanumerics name.toList (.identifier name) precedenceNot := by
  obtain ⟨next, tail, hname, hkind⟩ := h
  have hback : String.ofList (next :: tail) = name := by rw [← hname, String.ofList_toList]
  rw [hname]
  rcases hkind with ⟨hidentifier, htail⟩ | ⟨hidentifier, hvim, rfl⟩
  · refine ⟨⟨next, tail, rfl, isWhitespace_of_identifierChar hidentifier⟩, ?_⟩
    intro minPrecedence rest _ hends _
    rw [parseExpr_eq, cons_append, parsePrimary_name hidentifier htail hends, hback]
    rfl
  · refine ⟨⟨next, [], rfl, ?_⟩, ?_⟩
    · rcases vim_char_cases hvim with rfl | rfl | rfl | rfl | rfl <;> decide
    · intro minPrecedence rest _ _ _
      rw [parseExpr_eq, cons_append, parsePrimary_operatorChar hidentifier hvim, hback]
      rfl

/-- A comparison of names. -/
theorem parsesAs_comparison {leftName rightName : String} {operator : PredicateOperator}
    {joined : KeyBindingContextPredicate} (hlevel : operator.precedence + 1 ≤ precedenceNot)
    (hleft : IsName alphanumerics leftName) (hright : IsName alphanumerics rightName)
    (hjoined : operator.construct (.identifier leftName) (.identifier rightName) = .ok joined) :
    ParsesAs alphanumerics (operator.join leftName.toList rightName.toList) joined
      operator.precedence where
  head := by
    obtain ⟨first, rest, hfirst, hwhite⟩ := (parsesAs_name hleft).head
    exact ⟨first, _, by rw [PredicateOperator.join, hfirst, cons_append], hwhite⟩
  parses minPrecedence rest hmin hends hstops := by
    rw [join_append, (parsesAs_name hleft).parses _ _ (by omega) (endsName_space _)
      (stops_of_lt (by decide) _), skipWhitespace_separator]
    exact (parsesAs_name hright).parseRest_operator hlevel hjoined hmin hends hstops

end Pieces

namespace KeyBindingContextPredicate

/-- How tightly the printed text of a predicate binds. -/
def level : KeyBindingContextPredicate → Nat
  | descendant _ _ => PredicateOperator.child.precedence
  | or _ _ => PredicateOperator.or.precedence
  | and _ _ => PredicateOperator.and.precedence
  | equal _ _ | notEqual _ _ => PredicateOperator.eq.precedence
  | identifier _ | not _ => PredicateOperator.precedenceNot

theorem child_le_level (predicate : KeyBindingContextPredicate) :
    PredicateOperator.child.precedence ≤ predicate.level := by
  cases predicate <;> simp [level, PredicateOperator.precedence, precedenceNot]

/-- A printed predicate is read as the regrouped one, by itself and after an operator. -/
structure ReadsBack (alphanumerics : Alphanumerics)
    (predicate : KeyBindingContextPredicate) : Prop where
  whole : ParsesAs alphanumerics predicate.printed.text predicate.regrouped.tree predicate.level
  child : Continues alphanumerics .child predicate.printed.text predicate.regrouped.afterChild
  conjunct : predicate.isDescendant = false →
    ParsesAs alphanumerics predicate.printed.asConjunct predicate.regrouped.tree
        PredicateOperator.and.precedence ∧
      Continues alphanumerics .and predicate.printed.asConjunct predicate.regrouped.afterAnd
  disjunct : predicate.isDescendant = false →
    ParsesAs alphanumerics predicate.printed.asDisjunct predicate.regrouped.tree
        PredicateOperator.or.precedence ∧
      Continues alphanumerics .or predicate.printed.asDisjunct predicate.regrouped.afterOr

variable {predicate : KeyBindingContextPredicate}

/-- A predicate that is printed alike everywhere and binds more tightly than `&&`. -/
theorem ReadsBack.ofPlain {text : List Char}
    {tree : KeyBindingContextPredicate} (hprinted : predicate.printed = .plain text)
    (hregrouped : predicate.regrouped = .single tree)
    (hlevel : PredicateOperator.and.precedence + 1 ≤ predicate.level)
    (h : ParsesAs alphanumerics text tree predicate.level) :
    ReadsBack alphanumerics predicate := by
  have hor : PredicateOperator.or.precedence + 1 ≤ predicate.level := le_trans (by decide) hlevel
  have hchild : PredicateOperator.child.precedence + 1 ≤ predicate.level :=
    le_trans (by decide) hlevel
  constructor
  · rw [hprinted, hregrouped]
    exact h
  · rw [hprinted, hregrouped]
    exact h.continues hchild fun _ => rfl
  · intro _
    rw [hprinted, hregrouped]
    exact ⟨h.weaken (by omega), h.continues hlevel fun _ => rfl⟩
  · intro _
    rw [hprinted, hregrouped]
    exact ⟨h.weaken (by omega), h.continues hor fun _ => rfl⟩

theorem readsBack
    (hnamed : predicate.WellNamed alphanumerics) (halone : predicate.descendantsStandAlone = true) :
    ReadsBack alphanumerics predicate := by
  induction predicate with
  | identifier name => exact .ofPlain rfl rfl (le_succ 4) (parsesAs_name hnamed)
  | equal left right =>
    exact .ofPlain rfl rfl (le_refl 4)
      (@parsesAs_comparison _ _ _ .eq _ (by decide) hnamed.1 hnamed.2 rfl)
  | notEqual left right =>
    exact .ofPlain rfl rfl (le_refl 4)
      (@parsesAs_comparison _ _ _ .neq _ (by decide) hnamed.1 hnamed.2 rfl)
  | descendant parent child ihParent ihChild =>
    rw [descendantsStandAlone, Bool.and_eq_true] at halone
    have hparent := ihParent hnamed.1 halone.1
    have hchild := ihChild hnamed.2 halone.2
    exact
      { whole := hparent.whole.join (child_le_level parent) hchild.child
        child := hparent.child.join hchild.child
        conjunct := fun h => by cases h
        disjunct := fun h => by cases h }
  | not negated ih =>
    have hnegated := ih hnamed halone
    have hplain : ParsesAs alphanumerics ('!' :: parenthesized negated.printed.text)
        (.not negated.regrouped.tree) precedenceNot :=
      hnegated.whole.parenthesized.negated
    cases negated with
    | identifier name =>
      exact .ofPlain rfl rfl (le_succ 4) (parsesAs_name hnamed).negated
    | _ => exact .ofPlain rfl rfl (le_succ 4) hplain
  | and left right ihLeft ihRight =>
    rw [descendantsStandAlone, Bool.and_eq_true, Bool.and_eq_true, Bool.and_eq_true,
      Bool.not_eq_true', Bool.not_eq_true'] at halone
    obtain ⟨hleft, hleftAfter⟩ := (ihLeft hnamed.1 halone.2.1).conjunct halone.1.1
    obtain ⟨_, hrightAfter⟩ := (ihRight hnamed.2 halone.2.2).conjunct halone.1.2
    have hwhole := hleft.join (le_refl _) hrightAfter
    exact
      { whole := hwhole
        child := hwhole.continues (by decide) fun _ => rfl
        conjunct := fun _ => ⟨hwhole, hleftAfter.join hrightAfter⟩
        disjunct := fun _ => ⟨hwhole.parenthesized.weaken (by decide),
          hwhole.parenthesized.continues (by decide) fun _ => rfl⟩ }
  | or left right ihLeft ihRight =>
    rw [descendantsStandAlone, Bool.and_eq_true, Bool.and_eq_true, Bool.and_eq_true,
      Bool.not_eq_true', Bool.not_eq_true'] at halone
    obtain ⟨hleft, hleftAfter⟩ := (ihLeft hnamed.1 halone.2.1).disjunct halone.1.1
    obtain ⟨_, hrightAfter⟩ := (ihRight hnamed.2 halone.2.2).disjunct halone.1.2
    have hwhole := hleft.join (le_refl _) hrightAfter
    exact
      { whole := hwhole
        child := hwhole.continues (by decide) fun _ => rfl
        conjunct := fun _ => ⟨hwhole.parenthesized.weaken (by decide),
          hwhole.parenthesized.continues (by decide) fun _ => rfl⟩
        disjunct := fun _ => ⟨hwhole, hleftAfter.join hrightAfter⟩ }

/-- The text of a predicate parses as the regrouped predicate. -/
theorem parse_display
    (hnamed : predicate.WellNamed alphanumerics) (halone : predicate.descendantsStandAlone = true) :
    parse alphanumerics predicate.display = .ok predicate.regrouped.tree := by
  have h := (readsBack hnamed halone).whole
  have hskip := skipWhitespace_of_head h.head []
  have hoperand := h.operand (zero_le _) endsName_nil (stops_nil 0)
  rw [append_nil] at hskip hoperand
  rw [parse, display, hskip, hoperand]
  rfl

/-- Printing leaves out no parentheses that the predicate needs. -/
def printsBack (predicate : KeyBindingContextPredicate) : Bool :=
  predicate.descendantsStandAlone && predicate.chainsNegationFree

/-- The text of a parsed predicate parses as one that evaluates alike on every stack. -/
theorem survives_printing {source : List Char} {predicate : KeyBindingContextPredicate}
    (hparse : parse alphanumerics source = .ok predicate) (hback : predicate.printsBack = true) :
    ∃ printed, parse alphanumerics predicate.display = .ok printed ∧
      ∀ contexts allContexts, printed.evalInner contexts allContexts =
        predicate.evalInner contexts allContexts := by
  rw [printsBack, Bool.and_eq_true] at hback
  exact ⟨_, parse_display (wellNamed_of_parse hparse) hback.1, (meansSame hback.2).tree⟩

end KeyBindingContextPredicate

end Reading

/-- The letters and digits of English. -/
def asciiAlphanumerics : Alphanumerics where
  isAlphanumeric c := decide (48 ≤ c.toNat ∧ c.toNat ≤ 57) ||
    decide (65 ≤ c.toNat ∧ c.toNat ≤ 90) || decide (97 ≤ c.toNat ∧ c.toNat ≤ 122)
  not_whitespace c h := by
    simp only [Bool.or_eq_true, decide_eq_true_eq] at h
    simp only [isWhitespace, Bool.or_eq_false_iff, decide_eq_false_iff_not, beq_eq_false_iff_ne]
    omega
  not_punctuation c h := by
    simp only [List.mem_cons, List.not_mem_nil, or_false] at h
    rcases h with rfl | rfl | rfl | rfl | rfl | rfl | rfl | rfl | rfl | rfl | rfl <;> rfl

theorem workspaceItem_survives_printing :
    ∃ printed, parse asciiAlphanumerics
        (descendant (.identifier "Workspace")
          (.and (.identifier "Item") (.not (.equal "mode" "full")))).display = .ok printed ∧
      ∀ contexts allContexts, printed.evalInner contexts allContexts =
        (descendant (.identifier "Workspace")
          (.and (.identifier "Item") (.not (.equal "mode" "full")))).evalInner
            contexts allContexts :=
  survives_printing (@id (parse asciiAlphanumerics
      "Workspace > Item && !(mode == full)".toList = .ok _) (by decide))
    (by decide)

/-- A conjunct that is a descendant is printed without its parentheses. -/
theorem descendantConjunct_is_lost : ∃ predicate printed,
    parse asciiAlphanumerics "Item && (Pane > Tab)".toList =
        .ok predicate ∧
      parse asciiAlphanumerics predicate.display = .ok printed ∧
        predicate.eval [[⟨"Pane", none⟩], [⟨"Item", none⟩, ⟨"Tab", none⟩]] = true ∧
          printed.eval [[⟨"Pane", none⟩], [⟨"Item", none⟩, ⟨"Tab", none⟩]] = false :=
  ⟨.and (.identifier "Item") (.descendant (.identifier "Pane") (.identifier "Tab")),
    .descendant (.and (.identifier "Item") (.identifier "Pane")) (.identifier "Tab"),
    by decide, by decide, by decide, by decide⟩

end OpenGpui.Keys
