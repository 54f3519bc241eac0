/-
Truncation of a single line.  The cut is remembered at the last character where the
affix still fitted.  The zero it starts from means that nothing is kept when the line
is cut at its end; when it is cut at its start, all but the first character is kept.
-/
import OpenGpui.Library.Primitives
import Mathlib.Data.List.DropRight
import Mathlib.Data.Rat.Floor
import Mathlib.Data.String.Basic

namespace OpenGpui.Text

open List
open String (utf8Len)

universe u

/-- The end at which a line is cut. -/
inductive TruncateFrom where
  | start
  | stop

/-- A run of text; `Style` holds its font, colors and decorations. -/
structure TextRun (Style : Type u) where
  len : Nat
  style : Style

/-- `Cow`: what was passed in, or a copy of it. -/
inductive Cow (α : Type u) where
  | borrowed (value : α)
  | owned (value : α)

def Cow.get {α : Type u} : Cow α → α
  | .borrowed value => value
  | .owned value => value

def charIndicesFrom : Nat → List Char → List (Nat × Char)
  | _, [] => []
  | ix, c :: rest => (ix, c) :: charIndicesFrom (ix + c.utf8Size) rest

/-- The characters, each with the byte it starts at. -/
def charIndices (line : List Char) : List (Nat × Char) := charIndicesFrom 0 line

/-- `line[..ix]`. -/
def sliceTo (line : List Char) (ix : Nat) : List Char :=
  ((charIndices line).takeWhile fun entry => decide (entry.1 < ix)).map Prod.snd

/-- `line[line.ceil_char_boundary(ix)..]`. -/
def sliceFromCeil (line : List Char) (ix : Nat) : List Char :=
  ((charIndices line).dropWhile fun entry => decide (entry.1 < ix)).map Prod.snd

def isAsciiPunctuation (c : Char) : Bool :=
  decide (33 ≤ c.toNat ∧ c.toNat ≤ 47) || decide (58 ≤ c.toNat ∧ c.toNat ≤ 64) ||
  decide (91 ≤ c.toNat ∧ c.toNat ≤ 96) || decide (123 ≤ c.toNat ∧ c.toNat ≤ 126)

/-- A run is kept whole while the text that is left covers it. -/
def truncateRuns {Style : Type u} (affixLen : Nat) :
    Nat → List (TextRun Style) → List (TextRun Style)
  | _, [] => []
  | truncateAt, run :: runs =>
    if run.len ≤ truncateAt then run :: truncateRuns affixLen (truncateAt - run.len) runs
    else [{ run with len := truncateAt + affixLen }]

/-- The runs that cover what is left and the affix. -/
def updateRunsAfterTruncation {Style : Type u} (result ellipsis : List Char)
    (runs : List (TextRun Style)) (truncateFrom : TruncateFrom) : List (TextRun Style) :=
  let truncateAt := utf8Len result - utf8Len ellipsis
  match truncateFrom with
  | .start => (truncateRuns (utf8Len ellipsis) truncateAt runs.reverse).reverse
  | .stop => truncateRuns (utf8Len ellipsis) truncateAt runs

/-- The widths of characters in the wrapper's font, cached or not. -/
structure LineWrapper where
  widthForChar : Char → Rat

namespace LineWrapper

variable (wrapper : LineWrapper)

def widthOf (text : List Char) : Rat := (text.map wrapper.widthForChar).sum

/-- The loop of `should_truncate_line` over the characters from either end. -/
def truncationIndex (wrapper : LineWrapper) (truncateWidth suffixWidth : Rat) :
    List (Nat × Char) → Rat → Nat → Option Nat
  | [], _, _ => none
  | (ix, c) :: rest, width, truncateIx =>
    let truncateIx := if width + suffixWidth < truncateWidth then ix else truncateIx
    let width := width + wrapper.widthForChar c
    if truncateWidth < ⌊width⌋ then some truncateIx
    else wrapper.truncationIndex truncateWidth suffixWidth rest width truncateIx

/-- Where to cut a line that is too wide. -/
def shouldTruncateLine (line : List Char) (truncateWidth : Rat)
    (truncationAffix : List Char) (truncateFrom : TruncateFrom) : Option Nat :=
  let suffixWidth := wrapper.widthOf truncationAffix
  match truncateFrom with
  | .start => wrapper.truncationIndex truncateWidth suffixWidth (charIndices line).reverse 0 0
  | .stop => wrapper.truncationIndex truncateWidth suffixWidth (charIndices line) 0 0

/-- The line cut to the width, with the affix at the cut. -/
def truncateLine {Style : Type u} (wrapper : LineWrapper) (line : List Char)
    (truncateWidth : Rat) (truncationAffix : List Char) (runs : List (TextRun Style))
    (truncateFrom : TruncateFrom) : List Char × Cow (List (TextRun Style)) :=
  match wrapper.shouldTruncateLine line truncateWidth truncationAffix truncateFrom with
  | some truncateIx =>
    let result := match truncateFrom with
      | .start => truncationAffix ++ sliceFromCeil line (truncateIx + 1)
      | .stop => (sliceTo line truncateIx).rdropWhile
          (fun c => isWhitespace c || isAsciiPunctuation c) ++ truncationAffix
    (result, .owned (updateRunsAfterTruncation result truncationAffix runs truncateFrom))
  | none => (line, .borrowed runs)

end LineWrapper

theorem map_snd_charIndicesFrom (ix : Nat) (line : List Char) :
    (charIndicesFrom ix line).map Prod.snd = line := by
  induction line generalizing ix with
  | nil => rfl
  | cons c rest ih => rw [charIndicesFrom, map_cons, ih]

theorem le_of_mem_charIndicesFrom {ix : Nat} {line : List Char} :
    ∀ entry ∈ charIndicesFrom ix line, ix ≤ entry.1 := by
  induction line generalizing ix with
  | nil =>
    intro entry hentry
    cases hentry
  | cons c rest ih =>
    intro entry hentry
    rcases mem_cons.mp hentry with rfl | hrest
    · exact le_refl ix
    · exact (Nat.le_add_right _ _).trans (ih entry hrest)

theorem charIndicesFrom_pairwise (ix : Nat) (line : List Char) :
    (charIndicesFrom ix line).Pairwise fun left right => left.1 < right.1 := by
  induction line generalizing ix with
  | nil => exact .nil
  | cons c rest ih =>
    refine pairwise_cons.mpr ⟨fun entry hentry => ?_, ih _⟩
    have hpos := c.utf8Size_pos
    have hle := le_of_mem_charIndicesFrom entry hentry
    dsimp only
    omega

section

variable {line : List Char} {before after : List (Nat × Char)} {ix : Nat} {c : Char}

variable (hsplit : charIndices line = before ++ (ix, c) :: after)

include hsplit

theorem line_eq : line = before.map Prod.snd ++ c :: after.map Prod.snd := by
  rw [← map_snd_charIndicesFrom 0 line, ← charIndices, hsplit, map_append, map_cons]

theorem sliceTo_eq : sliceTo line ix = before.map Prod.snd := by
  have hordered := charIndicesFrom_pairwise 0 line
  rw [← charIndices, hsplit, pairwise_append] at hordered
  rw [sliceTo, hsplit, takeWhile_append_of_pos fun entry hentry =>
      decide_eq_true (hordered.2.2 entry hentry _ mem_cons_self),
    takeWhile_cons_of_neg (by simp), append_nil]

/-- A slice from inside a character begins with the next one. -/
theorem sliceFromCeil_eq : sliceFromCeil line (ix + 1) = after.map Prod.snd := by
  have hordered := charIndicesFrom_pairwise 0 line
  rw [← charIndices, hsplit, pairwise_append] at hordered
  rw [sliceFromCeil, hsplit, dropWhile_append_of_pos fun entry hentry =>
      decide_eq_true (Nat.lt_succ_of_lt (hordered.2.2 entry hentry _ mem_cons_self)),
    dropWhile_cons_of_pos (by simp)]
  cases after with
  | nil => rfl
  | cons entry rest =>
    have hlt := rel_of_pairwise_cons hordered.2.1 mem_cons_self
    rw [dropWhile_cons_of_neg (by simpa using Nat.succ_le_of_lt hlt)]

end

/-- The cut runs cover the kept text and the affix. -/
theorem sum_truncateRuns {Style : Type u} (affixLen : Nat) {truncateAt : Nat}
    {runs : List (TextRun Style)} (hcovers : truncateAt < (runs.map TextRun.len).sum) :
    ((truncateRuns affixLen truncateAt runs).map TextRun.len).sum = truncateAt + affixLen := by
  induction runs generalizing truncateAt with
  | nil => exact absurd hcovers (Nat.not_lt_zero _)
  | cons run runs ih =>
    rw [map_cons, sum_cons] at hcovers
    rw [truncateRuns]
    split
    · rw [map_cons, sum_cons, ih (by omega)]
      omega
    · exact sum_singleton

namespace LineWrapper

variable {wrapper : LineWrapper} {truncateWidth suffixWidth : Rat}

@[simp] theorem widthOf_cons (c : Char) (text : List Char) :
    wrapper.widthOf (c :: text) = wrapper.widthForChar c + wrapper.widthOf text := by
  rw [widthOf, map_cons, sum_cons, widthOf]

@[simp] theorem widthOf_append (text other : List Char) :
    wrapper.widthOf (text ++ other) = wrapper.widthOf text + wrapper.widthOf other := by
  rw [widthOf, map_append, sum_append, widthOf, widthOf]

theorem widthOf_reverse (text : List Char) : wrapper.widthOf text.reverse = wrapper.widthOf text :=
  ((reverse_perm text).map _).sum_eq

/-- The index found is that of a character before which the affix still fits; where it
fits nowhere, it is the index the loop began with. -/
theorem truncationIndex_eq_some {entries : List (Nat × Char)} {width : Rat} {ix found : Nat}
    (h : wrapper.truncationIndex truncateWidth suffixWidth entries width ix = some found) :
    (found = ix ∧ truncateWidth ≤ width + suffixWidth) ∨
      ∃ before c after, entries = before ++ (found, c) :: after ∧
        width + wrapper.widthOf (before.map Prod.snd) + suffixWidth < truncateWidth := by
  induction entries generalizing width ix with
  | nil => cases h
  | cons entry rest ih =>
    obtain ⟨i, c⟩ := entry
    rw [truncationIndex] at h
    have hstep : found = (if width + suffixWidth < truncateWidth then i else ix) ∨
        ∃ before d after, (i, c) :: rest = before ++ (found, d) :: after ∧
          width + wrapper.widthOf (before.map Prod.snd) + suffixWidth < truncateWidth := by
      split at h
      · exact .inl (Option.some.inj h).symm
      · rcases ih h with ⟨hfound, -⟩ | ⟨before, d, after, rfl, hlt⟩
        · exact .inl hfound
        · refine .inr ⟨(i, c) :: before, d, after, rfl, ?_⟩
          rw [map_cons, widthOf_cons, ← add_assoc]
          exact hlt
    rcases hstep with hfound | hlater
    · by_cases hfits : width + suffixWidth < truncateWidth
      · rw [if_pos hfits] at hfound
        subst hfound
        exact .inr ⟨[], c, rest, rfl, by simpa [widthOf] using hfits⟩
      · rw [if_neg hfits] at hfound
        exact .inl ⟨hfound, not_lt.mp hfits⟩
    · exact .inr hlater

section

variable (hpos : ∀ c, 0 < wrapper.widthForChar c)

include hpos

theorem widthOf_nonneg (text : List Char) : 0 ≤ wrapper.widthOf text := by
  induction text with
  | nil => exact le_refl 0
  | cons c text ih =>
    rw [widthOf_cons]
    exact add_nonneg (hpos c).le ih

variable {ix : Nat}

/-- The loop finds no cut exactly when the rounded width fits. -/
theorem truncationIndex_eq_none_iff {entries : List (Nat × Char)} {width : Rat} :
    wrapper.truncationIndex truncateWidth suffixWidth entries width ix = none ↔
      entries = [] ∨ ⌊width + wrapper.widthOf (entries.map Prod.snd)⌋ ≤ truncateWidth := by
  induction entries generalizing width ix with
  | nil => simp [truncationIndex]
  | cons entry rest ih =>
    obtain ⟨i, c⟩ := entry
    rw [truncationIndex, map_cons, widthOf_cons, ← add_assoc]
    dsimp only
    split
    · next hover =>
      have hnonneg := widthOf_nonneg hpos (rest.map Prod.snd)
      have hgrows : ⌊width + wrapper.widthForChar c⌋ ≤
          ⌊width + wrapper.widthForChar c + wrapper.widthOf (rest.map Prod.snd)⌋ :=
        Int.floor_le_floor (by linarith)
      have hcast : (⌊width + wrapper.widthForChar c⌋ : Rat) ≤ _ := Int.cast_le.mpr hgrows
      simp only [reduceCtorEq, false_or, false_iff, not_le]
      exact hover.trans_le hcast
    · next hfits =>
      rw [ih]
      cases rest with
      | nil => simpa [widthOf] using hfits
      | cons => simp

variable {line affix : List Char} {truncateFrom : TruncateFrom}

theorem shouldTruncateLine_eq_none_iff :
    wrapper.shouldTruncateLine line truncateWidth affix truncateFrom = none ↔
      line = [] ∨ ⌊wrapper.widthOf line⌋ ≤ truncateWidth := by
  have hempty : charIndices line = [] ↔ line = [] := by
    cases line <;> simp [charIndices, charIndicesFrom]
  have hchars : (charIndices line).map Prod.snd = line := map_snd_charIndicesFrom 0 line
  cases truncateFrom <;> rw [shouldTruncateLine, truncationIndex_eq_none_iff hpos]
  · rw [reverse_eq_nil_iff, hempty, map_reverse, widthOf_reverse, hchars, zero_add]
  · rw [hempty, hchars, zero_add]

omit hpos in
/-- What a cut at the start keeps fits with the affix, or nothing was remembered. -/
theorem exists_of_start (hline : line ≠ [])
    (h : wrapper.shouldTruncateLine line truncateWidth affix .start = some ix) :
    ∃ dropped c, line = dropped ++ c :: sliceFromCeil line (ix + 1) ∧
      (wrapper.widthOf (sliceFromCeil line (ix + 1)) + wrapper.widthOf affix < truncateWidth ∨
        truncateWidth ≤ wrapper.widthOf affix ∧ dropped = []) := by
  rcases truncationIndex_eq_some h with ⟨rfl, hle⟩ | ⟨before, c, after, hreversed, hlt⟩
  · cases line with
    | nil => exact absurd rfl hline
    | cons c rest =>
      have hsplit : charIndices (c :: rest) = [] ++ (0, c) :: charIndicesFrom _ rest := rfl
      refine ⟨[], c, ?_, .inr ⟨by rwa [zero_add] at hle, rfl⟩⟩
      rw [sliceFromCeil_eq hsplit]
      exact line_eq hsplit
  · have hsplit : charIndices line = after.reverse ++ (ix, c) :: before.reverse := by
      rw [← reverse_reverse (charIndices line), hreversed]
      simp
    refine ⟨after.reverse.map Prod.snd, c, ?_, .inl ?_⟩
    · rw [sliceFromCeil_eq hsplit]
      exact line_eq hsplit
    · rw [sliceFromCeil_eq hsplit, map_reverse, widthOf_reverse]
      rwa [zero_add] at hlt

omit hpos in
/-- What a cut at the end keeps fits with the affix, or is empty. -/
theorem exists_of_stop (hline : line ≠ [])
    (h : wrapper.shouldTruncateLine line truncateWidth affix .stop = some ix) :
    ∃ c dropped, line = sliceTo line ix ++ c :: dropped ∧
      (wrapper.widthOf (sliceTo line ix) + wrapper.widthOf affix < truncateWidth ∨
        sliceTo line ix = []) := by
  rcases truncationIndex_eq_some h with ⟨rfl, -⟩ | ⟨before, c, after, hsplit, hlt⟩
  · cases line with
    | nil => exact absurd rfl hline
    | cons c rest => exact ⟨c, rest, rfl, .inr rfl⟩
  · refine ⟨c, after.map Prod.snd, ?_, .inl ?_⟩
    · rw [sliceTo_eq hsplit]
      exact line_eq hsplit
    · rw [sliceTo_eq hsplit]
      rwa [zero_add] at hlt

end

/-- The line is returned as it is where it fits; otherwise what is returned is the affix
with a part of the line, and no wider than it has to be. -/
structure TruncatesToFit {Style : Type u} (wrapper : LineWrapper) (line : List Char)
    (truncateWidth : Rat) (affix : List Char) (runs : List (TextRun Style))
    (truncateFrom : TruncateFrom) : Prop where
  unchanged : wrapper.truncateLine line truncateWidth affix runs truncateFrom =
    (line, .borrowed runs) ↔ ⌊wrapper.widthOf line⌋ ≤ truncateWidth
  keeps : truncateWidth < ⌊wrapper.widthOf line⌋ → ∃ kept, (truncateFrom = .start ∧ kept <:+ line ∧
        (wrapper.truncateLine line truncateWidth affix runs truncateFrom).1 = affix ++ kept) ∨
      (truncateFrom = .stop ∧ kept <+: line ∧
        (wrapper.truncateLine line truncateWidth affix runs truncateFrom).1 = kept ++ affix)
  fits : truncateWidth < ⌊wrapper.widthOf line⌋ →
    wrapper.widthOf (wrapper.truncateLine line truncateWidth affix runs truncateFrom).1 ≤
      max truncateWidth (wrapper.widthOf affix)
  covers : truncateWidth < ⌊wrapper.widthOf line⌋ →
    ((wrapper.truncateLine line truncateWidth affix runs truncateFrom).2.get.map
      TextRun.len).sum = utf8Len (wrapper.truncateLine line truncateWidth affix runs truncateFrom).1

section

variable {line affix text kept : List Char} {truncateFrom : TruncateFrom} {Style : Type u}
  {runs owned : List (TextRun Style)}

theorem sum_updateRuns (htext : utf8Len text = utf8Len kept + utf8Len affix)
    (hkept : utf8Len kept < (runs.map TextRun.len).sum) :
    ((updateRunsAfterTruncation text affix runs truncateFrom).map TextRun.len).sum =
      utf8Len text := by
  have hat : utf8Len text - utf8Len affix = utf8Len kept := by omega
  cases truncateFrom with
  | start =>
    rw [updateRunsAfterTruncation, hat, map_reverse, sum_reverse, sum_truncateRuns, htext]
    rwa [map_reverse, sum_reverse]
  | stop => rw [updateRunsAfterTruncation, hat, sum_truncateRuns _ hkept, htext]

/-- A cut line that fits and is covered by its runs is as it should be. -/
theorem TruncatesToFit.of_owned (hover : truncateWidth < ⌊wrapper.widthOf line⌋)
    (hresult : wrapper.truncateLine line truncateWidth affix runs truncateFrom =
      (text, .owned owned))
    (hkeeps : (truncateFrom = .start ∧ kept <:+ line ∧ text = affix ++ kept) ∨
      (truncateFrom = .stop ∧ kept <+: line ∧ text = kept ++ affix))
    (hfits : wrapper.widthOf text ≤ max truncateWidth (wrapper.widthOf affix))
    (hcovers : (owned.map TextRun.len).sum = utf8Len text) :
    TruncatesToFit wrapper line truncateWidth affix runs truncateFrom := by
  constructor <;> rw [hresult]
  · refine ⟨fun h => ?_, fun h => absurd hover (not_lt.mpr h)⟩
    cases (Prod.mk.inj h).2
  · exact fun _ => ⟨kept, hkeeps⟩
  · exact fun _ => hfits
  · exact fun _ => hcovers

/-- An affix as wide as the limit leaves no cut to remember, and from the start of the
line that is the cut after its first character. -/
theorem truncatesToFit_iff (hpos : ∀ c, 0 < wrapper.widthForChar c)
    (hcovers : (runs.map TextRun.len).sum = utf8Len line) :
    TruncatesToFit wrapper line truncateWidth affix runs truncateFrom ↔
      (line = [] → 0 ≤ truncateWidth) ∧
        (truncateFrom = .start → truncateWidth < ⌊wrapper.widthOf line⌋ →
          truncateWidth ≤ wrapper.widthOf affix → line.length ≤ 1) := by
  have hnone := @shouldTruncateLine_eq_none_iff wrapper truncateWidth hpos line affix truncateFrom
  constructor
  · intro h
    refine ⟨?_, ?_⟩
    · rintro rfl
      have hfloor := h.unchanged.mp (by rw [truncateLine, hnone.mpr (Or.inl rfl)])
      simpa [widthOf] using hfloor
    · rintro rfl hover hle
      by_contra hlength
      have hline : line ≠ [] := by
        rintro rfl
        exact hlength (Nat.zero_le _)
      obtain ⟨ix, hix⟩ := Option.ne_none_iff_exists'.mp
        (mt hnone.mp (not_or.mpr ⟨hline, not_le.mpr hover⟩))
      obtain ⟨dropped, c, hsplit, hcut⟩ := exists_of_start hline hix
      have hfits := h.fits hover
      rw [truncateLine, hix, max_eq_right hle] at hfits
      dsimp only at hfits
      rw [widthOf_append] at hfits
      have hnonneg := widthOf_nonneg hpos (sliceFromCeil line (ix + 1))
      rcases hcut with hlt | ⟨-, rfl⟩
      · linarith
      · cases hkept : sliceFromCeil line (ix + 1) with
        | nil =>
          rw [hkept] at hsplit
          rw [hsplit] at hlength
          exact hlength le_rfl
        | cons d rest =>
          rw [hkept, widthOf_cons] at hfits
          linarith [hpos d, widthOf_nonneg hpos rest]
  · rintro ⟨hempty, hstart⟩
    by_cases hover : truncateWidth < ⌊wrapper.widthOf line⌋
    · have hline : line ≠ [] := by
        rintro rfl
        have hzero := hempty rfl
        simp only [widthOf, map_nil, sum_nil, Int.floor_zero, Int.cast_zero] at hover
        exact absurd hover (not_lt.mpr hzero)
      obtain ⟨ix, hix⟩ := Option.ne_none_iff_exists'.mp
        (mt hnone.mp (not_or.mpr ⟨hline, not_le.mpr hover⟩))
      cases truncateFrom with
      | start =>
        obtain ⟨dropped, c, hsplit, hcut⟩ := exists_of_start hline hix
        have hlen := congrArg utf8Len hsplit
        rw [String.utf8Len_append, String.utf8Len_cons] at hlen
        have hsize := c.utf8Size_pos
        have htext := String.utf8Len_append affix (sliceFromCeil line (ix + 1))
        refine .of_owned hover (by rw [truncateLine, hix])
          (Or.inl ⟨rfl, ⟨dropped ++ [c], by simp [← hsplit]⟩, rfl⟩) ?_
          (sum_updateRuns (htext.trans (Nat.add_comm _ _)) (by omega))
        rw [widthOf_append]
        rcases hcut with hlt | ⟨hle, rfl⟩
        · exact le_max_of_le_left (by linarith)
        · have hone := hstart rfl hover hle
          rw [hsplit, nil_append, length_cons] at hone
          rw [eq_nil_of_length_eq_zero (l := sliceFromCeil line (ix + 1)) (by omega)]
          exact le_max_of_le_right (by simp [widthOf])
      | stop =>
        obtain ⟨c, dropped, hsplit, hcut⟩ := exists_of_stop hline hix
        have hlen := congrArg utf8Len hsplit
        rw [String.utf8Len_append, String.utf8Len_cons] at hlen
        have hsize := c.utf8Size_pos
        obtain ⟨trimmed, htrimmed⟩ := rdropWhile_prefix
          (fun c => isWhitespace c || isAsciiPunctuation c) (sliceTo line ix)
        have hkept := congrArg utf8Len htrimmed
        rw [String.utf8Len_append] at hkept
        refine .of_owned hover (by rw [truncateLine, hix])
          (Or.inr ⟨rfl, ( rdropWhile_prefix _ _).trans ⟨_, hsplit.symm⟩, rfl⟩) ?_
          (sum_updateRuns (String.utf8Len_append _ _) (by omega))
        rw [widthOf_append]
        have hwidth := congrArg wrapper.widthOf htrimmed
        rw [widthOf_append] at hwidth
        have hnonneg := widthOf_nonneg hpos trimmed
        rcases hcut with hlt | hnil
        · exact le_max_of_le_left (by linarith)
        · rw [hnil]
          exact le_max_of_le_right (by simp [widthOf])
    · have hsame : wrapper.truncateLine line truncateWidth affix runs truncateFrom =
          (line, .borrowed runs) := by
        rw [truncateLine, hnone.mpr (Or.inr (not_lt.mp hover))]
      constructor
      · exact iff_of_true hsame (not_lt.mp hover)
      all_goals exact fun h => absurd h hover

end

def monospaced : LineWrapper := ⟨fun _ => 1⟩

theorem truncatesToFit_iff_monospaced :
    TruncatesToFit monospaced ['a', 'b', 'c'] 2 ['…'] [TextRun.mk 3 ()] .start ↔
      (['a', 'b', 'c'] = [] → (0 : Rat) ≤ 2) ∧
        (TruncateFrom.start = .start → (2 : Rat) < ⌊monospaced.widthOf ['a', 'b', 'c']⌋ →
          2 ≤ monospaced.widthOf ['…'] → ['a', 'b', 'c'].length ≤ 1) :=
  truncatesToFit_iff (fun _ => one_pos) rfl

theorem wide_affix_keeps_too_much :
    ¬TruncatesToFit monospaced ['a', 'b', 'c'] 1 ['…'] [TextRun.mk 3 ()] .start := by
  intro h
  have hfits := h.fits (by decide +kernel)
  exact absurd hfits (by decide +kernel)

end LineWrapper

end OpenGpui.Text
