/-
The score a command gets in a search.  Each searchable field has a base, each kind of
match a tier, and a scattered match collects points for the characters it finds; all of
it is arithmetic on 16-bit numbers.
-/
import OpenGpui.Command.Scopes
import OpenGpui.Library.Primitives
import Mathlib.Data.List.Infix

namespace OpenGpui.Command

open List Option U16 Nat

def normalizeCommandText (text : String) : List Char := (trim text.toList).map Char.toLower

/-- The scan of the text: `index` counts its characters, `current` is the character of the query
that is looked for and `query` what follows it. -/
def fuzzyScan (index score : Nat) (current : Char) (query : List Char)
    (previousMatch : Option Nat) : List Char → Option Nat
  | [] => none
  | ch :: text =>
    if ch = current then
      let points := if previousMatch = some (index - 1) then 24 else 8
      let score := U16.saturatingAdd score points
      match query with
      | next :: query => fuzzyScan (index + 1) score next query (some index) text
      | [] => some score
    else fuzzyScan (index + 1) score current query previousMatch text

def fuzzySubsequenceScore (text normalizedQuery : List Char) : Option Nat :=
  match normalizedQuery with
  | [] => none
  | current :: query => fuzzyScan 0 0 current query none text

variable (text : List Char)

/-- The pieces of a text between the characters that are no ASCII letters or digits. -/
def words : List (List Char) := text.splitOnP fun ch => !ch.isAlphanum

/-- The outer `none` is the panic of an addition that overflows. -/
def commandTextScore (text : String) (normalizedQuery : List Char) : Option (Option Nat) :=
  let text := normalizeCommandText text
  if text = [] then some none
  else if text = normalizedQuery then some (some 1000)
  else if normalizedQuery <+: text then some (some 850)
  else if ∃ word ∈ words text, normalizedQuery <+: word then some (some 760)
  else if normalizedQuery <:+: text then some (some 640)
  else
    match fuzzySubsequenceScore text normalizedQuery with
    | none => some none
    | some score => (U16.checkedAdd 420 score).map some

/-- The score of a text in a field with the base. -/
def fieldScore (base : Nat) (text : String) (normalizedQuery : List Char) : Option (Option Nat) :=
  (commandTextScore text normalizedQuery).bind fun result =>
    match result with
    | none => some none
    | some score => (U16.checkedAdd base score).map some

variable (descriptor : CommandDescriptor)

/-- The searchable texts of a descriptor with the bases of their fields. -/
def searchFields : List (String × Nat) :=
  [(descriptor.label, 4000), (descriptor.id, 3600), (descriptor.shortcut.getD "", 2400)] ++
    descriptor.keywords.map fun keyword => (keyword, 1800)

def commandSearchScore (query : String) : Option (Option Nat) :=
  let query := normalizeCommandText query
  if query = [] then some (some 0)
  else
    ((searchFields descriptor).mapM fun field => fieldScore field.2 field.1 query).map
      fun scores => (scores.filterMap id).max?

/-! How well a text matches, from the best to the worst. -/

inductive MatchQuality where
  | whole
  | start
  | wordStart
  | inside
  | scattered
deriving DecidableEq

def MatchQuality.rank : MatchQuality → Nat
  | whole => 4
  | start => 3
  | wordStart => 2
  | inside => 1
  | scattered => 0

/-- The best match of the query in the text. -/
def matchQuality (query text : List Char) : Option MatchQuality :=
  if text = query then some .whole
  else if query <+: text then some .start
  else if ∃ word ∈ words text, query <+: word then some .wordStart
  else if query <:+: text then some .inside
  else if query.Sublist text then some .scattered
  else none

/-- What a search with the query promises of every field: it has a score, computed without
overflow, when the query is a subsequence of its text, and a better match scores at least as high
in the same field. -/
structure RespectsQuality (query : String) : Prop where
  produced : normalizeCommandText query ≠ [] → ∀ base ∈ [4000, 3600, 2400, 1800], ∀ text,
    ∃ result, fieldScore base text (normalizeCommandText query) = some result ∧
      (result.isSome ↔ (normalizeCommandText query).Sublist (normalizeCommandText text))
  searched : ∀ descriptor, ∃ result, commandSearchScore descriptor query = some result ∧
    (result.isSome ↔ ∃ field ∈ searchFields descriptor,
      (normalizeCommandText query).Sublist (normalizeCommandText field.1))
  ordered : normalizeCommandText query ≠ [] → ∀ base ∈ [4000, 3600, 2400, 1800],
    ∀ better worse best other,
      matchQuality (normalizeCommandText query) (normalizeCommandText better) = some best →
      matchQuality (normalizeCommandText query) (normalizeCommandText worse) = some other →
      other.rank < best.rank →
        ∃ high low, fieldScore base better (normalizeCommandText query) = some (some high) ∧
          fieldScore base worse (normalizeCommandText query) = some (some low) ∧ low ≤ high

/-! What the scan finds, and how many points it collects. -/

theorem fuzzyScan_isSome_iff (index score : Nat) (current : Char)
    (query : List Char) (previousMatch : Option Nat) :
    (fuzzyScan index score current query previousMatch text).isSome ↔
      (current :: query).Sublist text := by
  induction text generalizing index score current query previousMatch with
  | nil => simp [fuzzyScan]
  | cons ch text ih =>
    rw [fuzzyScan]
    by_cases heq : ch = current
    · subst heq
      rw [if_pos rfl, cons_sublist_cons]
      cases query with
      | nil => simp
      | cons next query => exact ih _ _ _ _ _
    · rw [if_neg heq, ih]
      constructor
      · exact fun h => h.cons ch
      · intro h
        cases h with
        | cons _ h => exact h
        | cons_cons _ _ => exact absurd rfl heq

theorem fuzzySubsequenceScore_isSome_iff {query : List Char} (hquery : query ≠ [])
    (text : List Char) : (fuzzySubsequenceScore text query).isSome ↔ query.Sublist text := by
  cases query with
  | nil => exact absurd rfl hquery
  | cons current query => exact fuzzyScan_isSome_iff text 0 0 current query none

theorem saturatingAdd_le (left right : Nat) : saturatingAdd left right ≤ left + right :=
  min_le_left _ _

variable {score : Nat} {current : Char}

/-- Once a character was skipped between two matches, that match stays 16 points behind. -/
theorem fuzzyScan_le_of_gap {text : List Char} (found : Nat) {index : Nat}
    {query : List Char} {previousMatch : Option Nat} {last : Nat} (hscore : score + 32 ≤ 24 * found)
    (h : fuzzyScan index score current query previousMatch text = some last) :
    last + 32 ≤ 24 * (found + 1 + query.length) := by
  induction text generalizing index score found current query previousMatch with
  | nil => cases h
  | cons ch text ih =>
    rw [fuzzyScan] at h
    split at h
    · have hpoints : (if previousMatch = some (index - 1) then 24 else 8) ≤ 24 := by
        split <;> omega
      have hadd := saturatingAdd_le score (if previousMatch = some (index - 1) then 24 else 8)
      cases query with
      | nil =>
        obtain rfl := some.inj h
        omega
      | cons next query =>
        have hrest := ih (found + 1) (by omega) h
        rw [length_cons]
        omega
    · exact ih found hscore h

/-- As long as the matches stand side by side, either the query stands in the text as a whole or a
character is skipped later. -/
theorem fuzzyScan_le_of_block {text : List Char} (skipped block gap : List Char)
    {index previous : Nat} {query : List Char} {last : Nat}
    (hindex : index = skipped.length + block.length + gap.length)
    (hprevious : previous + 1 = skipped.length + block.length)
    (hscore : score + 16 ≤ 24 * block.length)
    (h : fuzzyScan index score current query (some previous) text = some last) :
    block ++ current :: query <:+: skipped ++ block ++ gap ++ text ∨
      last + 32 ≤ 24 * (block.length + 1 + query.length) := by
  induction text generalizing block gap index previous score current query with
  | nil => cases h
  | cons ch text ih =>
    rw [fuzzyScan] at h
    split at h
    · rename_i hmatch
      subst hmatch
      by_cases hgap : gap = []
      · subst hgap
        rw [length_nil, add_zero] at hindex
        rw [if_pos (congrArg some (by omega))] at h
        have hadd := saturatingAdd_le score 24
        cases query with
        | nil => exact .inl ⟨skipped, text, by simp⟩
        | cons next query =>
          have hrest := ih (block ++ [ch]) []
            (by rw [length_append, length_singleton, length_nil]; omega)
            (by rw [length_append, length_singleton]; omega)
            (by rw [length_append, length_singleton]; omega) h
          rw [length_append, length_singleton] at hrest
          rw [length_cons]
          refine hrest.imp (fun hinside => by simpa using hinside) fun hle => by omega
      · have hpositive := length_pos_iff.mpr hgap
        rw [if_neg fun hsame => by have := some.inj hsame; omega] at h
        have hadd := saturatingAdd_le score 8
        right
        cases query with
        | nil =>
          obtain rfl := some.inj h
          omega
        | cons next query =>
          have hrest := fuzzyScan_le_of_gap (block.length + 1) (by omega) h
          rw [length_cons]
          omega
    · have hrest := ih block (gap ++ [ch])
        (by rw [length_append, length_singleton]; omega) hprevious hscore h
      simpa using hrest

/-- A query that does not stand in the text as a whole stays 32 points behind 24 points for each
character. -/
theorem fuzzyScan_le_of_start {text : List Char} (skipped : List Char)
    {query : List Char} {last : Nat} (hout : ¬ current :: query <:+: skipped ++ text)
    (h : fuzzyScan skipped.length 0 current query none text = some last) :
    last + 32 ≤ 24 * (query.length + 1) := by
  induction text generalizing skipped with
  | nil => cases h
  | cons ch text ih =>
    rw [fuzzyScan] at h
    split at h
    · rename_i hmatch
      subst hmatch
      rw [if_neg (by simp)] at h
      cases query with
      | nil => exact absurd ⟨skipped, text, by simp⟩ hout
      | cons next query =>
        have hadd := saturatingAdd_le 0 8
        have hrest := fuzzyScan_le_of_block skipped [ch] []
          (by rw [length_singleton, length_nil]) (by rw [length_singleton])
          (by rw [length_singleton]; omega) h
        rcases hrest with hinside | hle
        · exact absurd (by simpa using hinside) hout
        · rw [length_singleton] at hle
          rw [length_cons]
          omega
    · have hindex : skipped.length + 1 = (skipped ++ [ch]).length := by
        rw [length_append, length_singleton]
      rw [hindex] at h
      exact ih (skipped ++ [ch]) (by simpa using hout) h

theorem fuzzySubsequenceScore_le {text query : List Char} (hout : ¬ query <:+: text)
    (h : fuzzySubsequenceScore text query = some score) : score + 32 ≤ 24 * query.length := by
  cases query with
  | nil => cases h
  | cons current query => exact fuzzyScan_le_of_start [] hout h

/-! The kinds of matches. -/

theorem words_shape :
    ∃ first rest, words text = first :: rest ∧ first <+: text ∧ ∀ word ∈ rest, word <:+: text := by
  induction text with
  | nil => exact ⟨[], [], rfl, prefix_rfl, fun _ h => nomatch h⟩
  | cons ch text ih =>
    obtain ⟨first, rest, heq, hfirst, hrest⟩ := ih
    rw [words] at heq
    rw [words, splitOnP_cons_eq_if_modifyHead, heq]
    have hlater : ∀ word ∈ rest, word <:+: ch :: text := fun word hword =>
      (hrest word hword).trans (suffix_cons ch text).isInfix
    split
    · refine ⟨[], first :: rest, rfl, nil_prefix, ?_⟩
      intro word hword
      rcases mem_cons.mp hword with rfl | hword
      · exact hfirst.isInfix.trans (suffix_cons ch text).isInfix
      · exact hlater word hword
    · exact ⟨ch :: first, rest, rfl, (prefix_cons_inj ch).mpr hfirst, hlater⟩

theorem infix_of_mem_words {text word : List Char} (h : word ∈ words text) : word <:+: text := by
  obtain ⟨first, rest, heq, hfirst, hrest⟩ := words_shape text
  rw [heq] at h
  rcases mem_cons.mp h with rfl | h
  · exact hfirst.isInfix
  · exact hrest word h

theorem isAlphanum_of_mem_words : ∀ word ∈ words text, ∀ ch ∈ word, ch.isAlphanum = true := by
  induction text with
  | nil => simp [words]
  | cons first text ih =>
    rw [words, splitOnP_cons_eq_if_modifyHead]
    rw [words] at ih
    split
    · simpa using ih
    · rename_i hfirst
      obtain ⟨head, rest, heq, _, _⟩ := words_shape text
      rw [words] at heq
      rw [heq]
      rw [heq] at ih
      intro word hword ch hch
      rcases mem_cons.mp hword with rfl | hword
      · rcases mem_cons.mp hch with rfl | hch
        · simpa using hfirst
        · exact ih head mem_cons_self ch hch
      · exact ih word (mem_cons_of_mem _ hword) ch hch

theorem matchQuality_isSome_iff (query text : List Char) :
    (matchQuality query text).isSome ↔ query.Sublist text := by
  rw [matchQuality]
  split
  · rename_i heq
    simp [heq]
  · split
    · rename_i hstart
      simpa using hstart.sublist
    · split
      · rename_i hword
        obtain ⟨word, hword, hstart⟩ := hword
        simpa using (hstart.isInfix.trans (infix_of_mem_words hword)).sublist
      · split
        · rename_i hinside
          simpa using hinside.sublist
        · split
          · rename_i hscattered
            simpa using hscattered
          · rename_i hnone
            simpa using hnone

/-- The score of a match of each kind. -/
def tierScore (query text : List Char) : MatchQuality → Option Nat
  | .whole => some 1000
  | .start => some 850
  | .wordStart => some 760
  | .inside => some 640
  | .scattered => (fuzzySubsequenceScore text query).bind (U16.checkedAdd 420)

theorem commandTextScore_eq {query : List Char} (hquery : query ≠ []) (text : String) :
    commandTextScore text query = match matchQuality query (normalizeCommandText text) with
      | none => some none
      | some quality => (tierScore query (normalizeCommandText text) quality).map some := by
  have hfuzzy := fuzzySubsequenceScore_isSome_iff hquery (normalizeCommandText text)
  rw [commandTextScore]
  by_cases hempty : normalizeCommandText text = []
  · rw [if_pos hempty, hempty]
    have hnone : matchQuality query [] = none := by
      rw [← not_isSome_iff_eq_none, matchQuality_isSome_iff, sublist_nil]
      exact hquery
    rw [hnone]
  · rw [if_neg hempty, matchQuality]
    split
    · rfl
    · split
      · rfl
      · split
        · rfl
        · split
          · rfl
          · cases hscore : fuzzySubsequenceScore (normalizeCommandText text) query with
            | none =>
              rw [hscore] at hfuzzy
              rw [if_neg fun h => Bool.false_ne_true (hfuzzy.mpr h)]
            | some score =>
              rw [hscore] at hfuzzy
              rw [if_pos (hfuzzy.mp rfl)]
              simp only [tierScore, hscore, bind_some]

theorem fieldScore_eq {query : List Char} (hquery : query ≠ []) (base : Nat) (text : String) :
    fieldScore base text query = match matchQuality query (normalizeCommandText text) with
      | none => some none
      | some quality => ((tierScore query (normalizeCommandText text) quality).bind
          (checkedAdd base)).map some := by
  rw [fieldScore, commandTextScore_eq hquery]
  cases matchQuality query (normalizeCommandText text) with
  | none => rfl
  | some quality =>
    cases htier : tierScore query (normalizeCommandText text) quality with
    | none | some score => simp [htier]

theorem not_infix_of_scattered {query text : List Char}
    (h : matchQuality query text = some .scattered) : ¬ query <:+: text := by
  rw [matchQuality] at h
  split at h
  · cases h
  · split at h
    · cases h
    · split at h
      · cases h
      · split at h
        · cases h
        · assumption

/-! Short queries. -/

/-- The lowest and the highest score of a kind, while the query is short. -/
def MatchQuality.floor : MatchQuality → Nat
  | whole => 1000
  | start => 850
  | wordStart => 760
  | inside => 640
  | scattered => 420

def MatchQuality.ceiling : MatchQuality → Nat
  | whole => 1000
  | start => 850
  | wordStart => 760
  | inside => 640
  | scattered => 640

theorem MatchQuality.ceiling_le_floor {best other : MatchQuality} (h : other.rank < best.rank) :
    other.ceiling ≤ best.floor := by
  cases best <;> cases other <;> revert h <;> decide

variable {quality : MatchQuality}

theorem tierScore_of_short {query text : List Char} (hquery : query ≠ [])
    (hshort : query.length ≤ 10) (hquality : matchQuality query text = some quality) :
    ∃ score, tierScore query text quality = some score ∧ quality.floor ≤ score ∧
      score ≤ quality.ceiling := by
  cases quality with
  | whole => exact ⟨1000, rfl, le_rfl, le_rfl⟩
  | start => exact ⟨850, rfl, le_rfl, le_rfl⟩
  | wordStart => exact ⟨760, rfl, le_rfl, le_rfl⟩
  | inside => exact ⟨640, rfl, le_rfl, le_rfl⟩
  | scattered =>
    have hfound : query.Sublist text :=
      (matchQuality_isSome_iff query text).mp (by rw [hquality]; rfl)
    obtain ⟨score, hscore⟩ :=
      isSome_iff_exists.mp ((fuzzySubsequenceScore_isSome_iff hquery text).mpr hfound)
    have hle := fuzzySubsequenceScore_le (not_infix_of_scattered hquality) hscore
    have hmax : U16.MAX = 65535 := rfl
    refine ⟨420 + score, ?_, by simp [MatchQuality.floor], ?_⟩
    · rw [tierScore, hscore, bind_some, checkedAdd_of_le (by omega)]
    · simp only [MatchQuality.ceiling]
      omega

variable {base : Nat}

theorem fieldScore_of_short {query : List Char} (hquery : query ≠ []) (hshort :
    query.length ≤ 10) (hbase : base ≤ 4000) {text : String}
    (hquality : matchQuality query (normalizeCommandText text) = some quality) :
    ∃ score, fieldScore base text query = some (some (base + score)) ∧ quality.floor ≤ score ∧
      score ≤ quality.ceiling := by
  obtain ⟨score, htier, hfloor, hceiling⟩ := tierScore_of_short hquery hshort hquality
  have hmax : U16.MAX = 65535 := rfl
  have hhigh : quality.ceiling ≤ 1000 := by cases quality <;> decide
  refine ⟨score, ?_, hfloor, hceiling⟩
  rw [fieldScore_eq hquery, hquality]
  simp only [htier, bind_some]
  rw [checkedAdd_of_le (by omega), map_some]

theorem fieldScore_isSome_of_short {query : List Char} (hquery : query ≠ [])
    (hshort : query.length ≤ 10) (hbase : base ≤ 4000) (text : String) :
    ∃ result, fieldScore base text query = some result ∧
      (result.isSome ↔ query.Sublist (normalizeCommandText text)) := by
  rw [← matchQuality_isSome_iff]
  cases hquality : matchQuality query (normalizeCommandText text) with
  | none =>
    refine ⟨none, ?_, Iff.rfl⟩
    rw [fieldScore_eq hquery, hquality]
  | some quality =>
    obtain ⟨score, hscore, _⟩ := fieldScore_of_short hquery hshort hbase hquality
    exact ⟨_, hscore, Iff.rfl⟩

theorem mapM_some_of_forall {α β : Type} {f : α → Option β} {g : α → β} {items : List α}
    (h : ∀ item ∈ items, f item = some (g item)) : items.mapM f = some (items.map g) := by
  induction items with
  | nil => rfl
  | cons item rest ih =>
    rw [mapM_cons, h item mem_cons_self, ih fun other hother => h other (mem_cons_of_mem _ hother)]
    rfl

theorem base_le_of_mem_searchFields {descriptor : CommandDescriptor} {field : String × Nat}
    (h : field ∈ searchFields descriptor) : field.2 ≤ 4000 := by
  simp only [searchFields, mem_append, mem_cons, not_mem_nil, or_false, List.mem_map] at h
  rcases h with (rfl | rfl | rfl) | ⟨keyword, _, rfl⟩ <;> simp

section

variable {query : String} (hshort : (normalizeCommandText query).length ≤ 10)

include hshort

theorem commandSearchScore_of_short (descriptor : CommandDescriptor) :
    ∃ result, commandSearchScore descriptor query = some result ∧
      (result.isSome ↔ ∃ field ∈ searchFields descriptor,
        (normalizeCommandText query).Sublist (normalizeCommandText field.1)) := by
  rw [commandSearchScore]
  by_cases hempty : normalizeCommandText query = []
  · rw [hempty]
    refine ⟨some 0, rfl, ?_⟩
    simp only [isSome_some, nil_sublist, and_true, true_iff]
    exact ⟨_, mem_append_left _ mem_cons_self⟩
  · rw [if_neg hempty]
    have hfields : ∀ field ∈ searchFields descriptor, fieldScore field.2 field.1
        (normalizeCommandText query) = some ((fieldScore field.2 field.1 (normalizeCommandText
        query)).getD none) ∧ (((fieldScore field.2 field.1 (normalizeCommandText query)).getD
        none).isSome ↔ (normalizeCommandText query).Sublist (normalizeCommandText field.1)) := by
      intro field hfield
      obtain ⟨result, hresult, hiff⟩ := fieldScore_isSome_of_short hempty hshort
        (base_le_of_mem_searchFields hfield) field.1
      rw [hresult]
      exact ⟨rfl, hiff⟩
    rw [mapM_some_of_forall fun field hfield => (hfields field hfield).1]
    refine ⟨_, rfl, ?_⟩
    rw [isSome_iff_ne_none, ne_eq, max?_eq_none_iff]
    constructor
    · intro hsome
      obtain ⟨score, hscore⟩ := exists_mem_of_ne_nil _ hsome
      obtain ⟨result, hresult, rfl⟩ := mem_filterMap.mp hscore
      obtain ⟨field, hfield, heq⟩ := mem_map.mp hresult
      exact ⟨field, hfield, (hfields field hfield).2.mp (by rw [heq]; rfl)⟩
    · rintro ⟨field, hfield, hfound⟩
      obtain ⟨score, hscore⟩ := isSome_iff_exists.mp ((hfields field hfield).2.mpr hfound)
      exact ne_nil_of_mem (mem_filterMap.mpr ⟨_, mem_map_of_mem hfield, hscore⟩)

theorem RespectsQuality.of_short : RespectsQuality query where
  produced hquery base hbase text :=
    fieldScore_isSome_of_short hquery hshort (by revert base; decide) text
  searched descriptor := commandSearchScore_of_short hshort descriptor
  ordered := by
    intro hquery base hbase better worse best other hbest hother hrank
    have hle : base ≤ 4000 := by revert base; decide
    obtain ⟨high, hhigh, hfloor, _⟩ := fieldScore_of_short hquery hshort hle hbest
    obtain ⟨low, hlow, _, hceiling⟩ := fieldScore_of_short hquery hshort hle hother
    have hapart := MatchQuality.ceiling_le_floor hrank
    exact ⟨_, _, hhigh, hlow, by omega⟩

end

/-! Long queries: a text with one character in front of the query, and one with a character in
front of its last one. -/

theorem normalizeCommandText_ofList {text : List Char} (hlower : ∀ ch ∈ text, ch.toLower = ch)
    (hfirst : ∀ ch ∈ text.head?, isWhitespace ch = false)
    (hlast : ∀ ch ∈ text.getLast?, isWhitespace ch = false) :
    normalizeCommandText (String.ofList text) = text := by
  rw [normalizeCommandText, String.toList_ofList, trim_eq_self hfirst hlast]
  exact (map_congr_left (g := id) hlower).trans (map_id text)

theorem toLower_of_mem_normalize {query : String} {ch : Char}
    (h : ch ∈ normalizeCommandText query) : ch.toLower = ch := by
  obtain ⟨original, _, rfl⟩ := mem_map.mp h
  exact toLower_toLower original

theorem head?_normalize (query : String) :
    ∀ ch ∈ (normalizeCommandText query).head?, isWhitespace ch = false := by
  intro ch hch
  rw [normalizeCommandText, head?_map, mem_def, map_eq_some_iff] at hch
  obtain ⟨original, horiginal, rfl⟩ := hch
  rw [isWhitespace_toLower]
  exact head?_trim _ original horiginal

theorem getLast?_normalize (query : String) :
    ∀ ch ∈ (normalizeCommandText query).getLast?, isWhitespace ch = false := by
  intro ch hch
  rw [normalizeCommandText, getLast?_map, mem_def, map_eq_some_iff] at hch
  obtain ⟨original, horiginal, rfl⟩ := hch
  rw [isWhitespace_toLower]
  exact getLast?_trim _ original horiginal

/-- A letter that two given characters are not. -/
theorem exists_letter_ne (one two : Char) :
    ∃ letter ∈ ['a', 'b', 'c'], letter ≠ one ∧ letter ≠ two := by
  by_cases ha : 'a' ≠ one ∧ 'a' ≠ two
  · exact ⟨'a', by decide, ha⟩
  · by_cases hb : 'b' ≠ one ∧ 'b' ≠ two
    · exact ⟨'b', by decide, hb⟩
    · refine ⟨'c', by decide, ?_⟩
      rw [not_and_or, not_ne_iff, not_ne_iff] at ha hb
      rcases ha with rfl | rfl
      · rcases hb with hb | rfl
        · exact absurd hb (by decide)
        · decide
      · rcases hb with rfl | hb
        · decide
        · exact absurd hb (by decide)

variable {letter : Char}

theorem letter_facts (h : letter ∈ ['a', 'b', 'c']) :
    letter.toLower = letter ∧ isWhitespace letter = false ∧ letter.isAlphanum = true := by
  simp only [mem_cons, not_mem_nil, or_false] at h
  rcases h with rfl | rfl | rfl
  · decide
  · decide
  · decide

theorem matchQuality_inside {query : List Char} (hquery : query ≠ [])
    (hletter : letter.isAlphanum = true) (hfirst : ∀ ch ∈ query.head?, letter ≠ ch) :
    matchQuality query (letter :: query) = some .inside := by
  have hstart : ¬ query <+: letter :: query := by
    intro h
    cases query with
    | nil => exact hquery rfl
    | cons ch rest => exact hfirst ch rfl (cons_prefix_cons.mp h).1.symm
  have hword : ¬ ∃ word ∈ words (letter :: query), query <+: word := by
    rintro ⟨word, hword, hhead⟩
    have halphanum : ∀ ch ∈ letter :: query, (!ch.isAlphanum) = false := by
      intro ch hch
      rcases mem_cons.mp hch with rfl | hch
      · simp [hletter]
      · simp [isAlphanum_of_mem_words _ word hword ch (hhead.subset hch)]
    rw [words, splitOnP_eq_singleton halphanum, mem_singleton] at hword
    exact hstart (hword ▸ hhead)
  rw [matchQuality, if_neg (by simp), if_neg hstart, if_neg hword,
    if_pos (suffix_cons letter query).isInfix]

variable {last : Char} {front : List Char}

theorem not_infix_of_parted (hne : front ≠ [])
    (hlast : letter ≠ last) (hfront : ∀ ch ∈ front.getLast?, letter ≠ ch) :
    ¬ front ++ [last] <:+: front ++ [letter, last] := by
  rintro ⟨before, after, h⟩
  have hlength := congrArg length h
  simp only [length_append, length_cons, length_nil] at hlength
  rcases Nat.eq_zero_or_pos before.length with hzero | hpositive
  · obtain rfl := eq_nil_of_length_eq_zero hzero
    rw [nil_append, append_assoc, append_cancel_left_eq] at h
    exact hlast (cons.inj h).1.symm
  · obtain rfl := eq_nil_of_length_eq_zero (show after.length = 0 by omega)
    obtain ⟨ch, rfl⟩ := length_eq_one_iff.mp (show before.length = 1 by omega)
    have hboth : (ch :: front) ++ [last] = (front ++ [letter]) ++ [last] := by simpa using h
    have hshift := append_cancel_right hboth
    cases front with
    | nil => exact hne rfl
    | cons first rest =>
      have hends := congrArg getLast? hshift
      rw [getLast?_concat] at hends
      exact hfront letter hends rfl

theorem matchQuality_scattered (hne : front ≠ [])
    (hlast : letter ≠ last) (hfront : ∀ ch ∈ front.getLast?, letter ≠ ch) :
    matchQuality (front ++ [last]) (front ++ [letter, last]) = some .scattered := by
  have hout := not_infix_of_parted hne hlast hfront
  rw [matchQuality, if_neg (by simp), if_neg fun h => hout h.isInfix, if_neg, if_neg hout, if_pos]
  · exact List.Sublist.append_left (sublist_cons_self letter [last]) front
  · rintro ⟨word, hword, hhead⟩
    exact hout (hhead.isInfix.trans (infix_of_mem_words hword))

/-- The points of a scan that finds a block at once, and the last character behind a letter. -/
theorem fuzzyScan_of_parted (block : List Char) (hlast : letter ≠ last)
    (index score : Nat) {query : List Char} (hquery : current :: query = block ++ [last]) :
    fuzzyScan (index + 1) score current query (some index) (block ++ [letter, last]) =
      some (saturatingAdd score (24 * block.length + 8)) := by
  induction block generalizing index score current query with
  | nil =>
    obtain ⟨rfl, rfl⟩ := cons.inj hquery
    simp [fuzzyScan, hlast]
  | cons head block ih =>
    rw [cons_append] at hquery
    obtain ⟨rfl, rfl⟩ := cons.inj hquery
    rw [cons_append, fuzzyScan, if_pos rfl, if_pos (by simp)]
    obtain ⟨next, rest, hrest⟩ := exists_cons_of_ne_nil (show block ++ [last] ≠ [] by simp)
    dsimp only
    rw [hrest]
    dsimp only
    rw [ih (index + 1) (saturatingAdd score 24) hrest.symm]
    simp only [saturatingAdd, length_cons]
    congr 1
    omega

theorem fuzzySubsequenceScore_of_parted (first : Char) (block : List Char) (hlast : letter ≠ last) :
    fuzzySubsequenceScore (first :: block ++ [letter, last]) (first :: block ++ [last]) =
      some (saturatingAdd 8 (24 * block.length + 8)) := by
  obtain ⟨next, rest, hrest⟩ := exists_cons_of_ne_nil (show block ++ [last] ≠ [] by simp)
  have hscan := fuzzyScan_of_parted block hlast 0 8 hrest.symm
  rw [cons_append, cons_append, fuzzySubsequenceScore, fuzzyScan, if_pos rfl, hrest]
  exact hscan

/-- The score of a scattered match, when its additions do not overflow. -/
theorem eq_of_fieldScore_scattered {query : List Char} {low : Nat} {text : String}
    (hquery : query ≠ [])
    (hquality : matchQuality query (normalizeCommandText text) = some .scattered)
    (hscore : fuzzySubsequenceScore (normalizeCommandText text) query = some score)
    (h : fieldScore base text query = some (some low)) : low = base + (420 + score) := by
  rw [fieldScore_eq hquery, hquality] at h
  simp only [tierScore, hscore, bind_some, map_eq_some_iff, some.injEq,
    exists_eq_right, bind_eq_some_iff] at h
  obtain ⟨sum, hsum, hlow⟩ := h
  rw [eq_of_checkedAdd hlow, eq_of_checkedAdd hsum]

theorem RespectsQuality.short {query : String} (h : RespectsQuality query) :
    (normalizeCommandText query).length ≤ 10 := by
  by_contra hlong
  obtain ⟨first, tail, hquery⟩ := exists_cons_of_length_pos
    (show 0 < (normalizeCommandText query).length by omega)
  rcases eq_nil_or_concat tail with rfl | ⟨block, last, rfl⟩
  · rw [hquery] at hlong
    exact hlong (by simp)
  · rw [concat_eq_append] at hquery
    have hlower := fun ch => @toLower_of_mem_normalize query ch
    have hhead := head?_normalize query
    have hlast := getLast?_normalize query
    have hne : normalizeCommandText query ≠ [] := by rw [hquery]; simp
    obtain ⟨letter, hletter, hnotLast, hnotBlock⟩ :=
      exists_letter_ne last (((first :: block).getLast?).getD last)
    obtain ⟨opening, hopening, hnotFirst, _⟩ := exists_letter_ne first first
    have hbetter : normalizeCommandText (String.ofList (opening :: normalizeCommandText query)) =
        opening :: normalizeCommandText query := by
      apply normalizeCommandText_ofList
      · intro ch hch
        rcases mem_cons.mp hch with rfl | hch
        · exact (letter_facts hopening).1
        · exact hlower ch hch
      · simpa using (letter_facts hopening).2.1
      · rw [hquery] at hlast ⊢
        simpa using hlast
    have hworse : normalizeCommandText (String.ofList (first :: block ++ [letter, last])) =
        first :: block ++ [letter, last] := by
      rw [hquery] at hlower hhead hlast
      apply normalizeCommandText_ofList
      · intro ch hch
        by_cases hch' : ch = letter
        · exact hch' ▸ (letter_facts hletter).1
        · exact hlower ch (by simpa [hch'] using hch)
      · simpa using hhead
      · have hends : (first :: block ++ [letter, last]).getLast? =
            (first :: block ++ [last]).getLast? := by
          simp [getLast?_cons]
        rw [hends]
        exact hlast
    have hinside := matchQuality_inside hne (letter_facts hopening).2.2 (by
      rw [hquery]
      simpa using hnotFirst)
    have hfront : ∀ ch ∈ (first :: block).getLast?, letter ≠ ch := by
      intro ch hch
      rw [mem_def.mp hch] at hnotBlock
      exact hnotBlock
    have hscattered := matchQuality_scattered (cons_ne_nil first block) hnotLast hfront
    have hsplit : first :: block ++ [last] = normalizeCommandText query := hquery.symm
    rw [hsplit] at hscattered
    have hfuzzy := fuzzySubsequenceScore_of_parted first block hnotLast
    rw [hsplit] at hfuzzy
    obtain ⟨high, low, hhigh, hlow, hle⟩ := h.ordered hne 4000 (by simp)
      (String.ofList (opening :: normalizeCommandText query))
      (String.ofList (first :: block ++ [letter, last])) .inside .scattered
      (by rw [hbetter, hinside]) (by rw [hworse, hscattered]) (by decide)
    rw [fieldScore_eq hne, hbetter, hinside] at hhigh
    have hhigh' : high = 4640 := by
      have := some.inj (some.inj hhigh)
      exact this.symm
    have hlow' := eq_of_fieldScore_scattered hne (by rw [hworse, hscattered])
      (by rw [hworse, hfuzzy]) hlow
    have hlength : (normalizeCommandText query).length = block.length + 2 := by
      rw [hquery]
      simp
    simp only [saturatingAdd, U16.MAX] at hlow'
    omega

/-- A search keeps to the quality of the matches, and its arithmetic does not overflow, for the
queries of at most ten characters and no others. -/
theorem respectsQuality_iff (query : String) :
    RespectsQuality query ↔ (normalizeCommandText query).length ≤ 10 :=
  ⟨RespectsQuality.short, RespectsQuality.of_short⟩

/-- Eleven characters side by side but one outdo a text that holds all eleven. -/
theorem not_respectsQuality_eleven : ¬ RespectsQuality "abcdefghijk" := by
  intro h
  obtain ⟨high, low, hhigh, hlow, hle⟩ := h.ordered (by decide) 4000 (by simp)
    "xabcdefghijk" "abcdefghij-k" .inside .scattered (by decide) (by decide)
    (by decide)
  have hhigh' : fieldScore 4000 "xabcdefghijk" (normalizeCommandText "abcdefghijk") =
      some (some 4640) := by decide
  have hlow' : fieldScore 4000 "abcdefghij-k" (normalizeCommandText "abcdefghijk") =
      some (some 4652) := by decide
  rw [hhigh', Option.some.injEq, Option.some.injEq] at hhigh
  rw [hlow', Option.some.injEq, Option.some.injEq] at hlow
  omega

end OpenGpui.Command
