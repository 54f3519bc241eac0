/-
The text of a keystroke: modifiers and a key with hyphens between them, read back from
the text that is printed.
-/
import OpenGpui.Keys.Binding
import OpenGpui.Library.Primitives

namespace OpenGpui.Keys

open List Option

/-- The targets the crate builds for, so far as they differ here. -/
inductive BuildTarget where
  | macos
  | linux
  | windows
  | web
deriving DecidableEq

structure InvalidKeystrokeError where
  keystroke : List Char
deriving DecidableEq

namespace Keystroke

variable (target : BuildTarget)

def equalsIgnoringCase (component : List Char) (word : String) : Bool :=
  component.map Char.toLower == word.toList

/-- What a modifier word sets. -/
def modifierOf (component : List Char) : Option (Modifiers → Modifiers) :=
  if equalsIgnoringCase component "ctrl" then some ({ · with control := true })
  else if equalsIgnoringCase component "alt" then some ({ · with alt := true })
  else if equalsIgnoringCase component "shift" then some ({ · with shift := true })
  else if equalsIgnoringCase component "fn" then some ({ · with function := true })
  else if equalsIgnoringCase component "secondary" then
    if target = .macos then some ({ · with platform := true })
    else some ({ · with control := true })
  else if equalsIgnoringCase component "cmd" || equalsIgnoringCase component "super" ||
      equalsIgnoringCase component "win" then some ({ · with platform := true })
  else none

structure Parts where
  modifiers : Modifiers
  key : Option (List Char)
  keyChar : Option (List Char)

/-- A capital letter is the small one with the shift key. -/
def lastComponent (component : List Char) (parts : Parts) : Parts :=
  { parts with
    modifiers := match component with
      | [letter] => { parts.modifiers with shift := parts.modifiers.shift || letter.isUpper }
      | _ => parts.modifiers
    key := some (component.map Char.toLower) }

/-- Reads the components; `endsWithHyphen` is of the whole source. -/
def parseComponents (endsWithHyphen : Bool) : List (List Char) → Parts → Option Parts
  | [], parts => some parts
  | component :: rest, parts =>
    match modifierOf target component with
    | some setModifier => parseComponents endsWithHyphen rest
        { parts with modifiers := setModifier parts.modifiers }
    | none =>
      match rest with
      | [] => some (lastComponent component parts)
      | next :: rest =>
        if next.isEmpty && endsWithHyphen then some { parts with key := some ['-'] }
        else
          match next with
          | '>' :: first :: more => parseComponents endsWithHyphen rest
              { parts with key := some component, keyChar := some (first :: more) }
          | _ => none

/-- A modifier by itself is the key, and then no modifier. -/
def takeModifier (modifiers : Modifiers) : Option (Modifiers × List Char) :=
  if modifiers.shift then some ({ modifiers with shift := false }, "shift".toList)
  else if modifiers.control then some ({ modifiers with control := false }, "control".toList)
  else if modifiers.alt then some ({ modifiers with alt := false }, "alt".toList)
  else if modifiers.platform then
    some ({ modifiers with platform := false }, "platform".toList)
  else if modifiers.function then
    some ({ modifiers with function := false }, "function".toList)
  else none

def finish (parts : Parts) : Option Keystroke :=
  match parts.key with
  | some key => some ⟨parts.modifiers, .ofList key, parts.keyChar.map .ofList⟩
  | none => (takeModifier parts.modifiers).map fun taken =>
    ⟨taken.1, .ofList taken.2, parts.keyChar.map .ofList⟩

def parse (source : List Char) : Except InvalidKeystrokeError Keystroke :=
  match (parseComponents target (source.getLast? == some '-') (source.splitOn '-')
    ⟨.none, none, none⟩).bind finish with
  | some keystroke => .ok keystroke
  | none => .error ⟨source⟩

/-- The word for the platform modifier; the web has none. -/
def platformWord : BuildTarget → List Char
  | .macos => "cmd-".toList
  | .linux => "super-".toList
  | .windows => "win-".toList
  | .web => []

def unparse (keystroke : Keystroke) : List Char :=
  (if keystroke.modifiers.function then "fn-".toList else []) ++
    ((if keystroke.modifiers.control then "ctrl-".toList else []) ++
      ((if keystroke.modifiers.alt then "alt-".toList else []) ++
        ((if keystroke.modifiers.platform then platformWord target else []) ++
          ((if keystroke.modifiers.shift then "shift-".toList else []) ++ keystroke.key.toList))))

/-- The modifiers named before the key, and whether there is no key. -/
def leadingModifiers : List (List Char) → Modifiers → Modifiers × Bool
  | [], modifiers => (modifiers, true)
  | component :: rest, modifiers =>
    match modifierOf target component with
    | some setModifier => leadingModifiers rest (setModifier modifiers)
    | none => (modifiers, false)

/-- The platform modifier is named, and is not itself the key. -/
def namesPlatform (source : List Char) : Bool :=
  let (modifiers, alone) := leadingModifiers target (source.splitOn '-') .none
  modifiers.platform && (!alone || modifiers.shift || modifiers.control || modifiers.alt)

variable {target}

/-- The keys that are read, with the modifiers they can be read with. -/
inductive KeyForm (target : BuildTarget) (modifiers : Modifiers) : List Char → Prop where
  | word {component : List Char} (hkey : modifierOf target component = none)
      (hhyphen : '-' ∉ component) : KeyForm target modifiers (component.map Char.toLower)
  | hyphen : KeyForm target modifiers ['-']
  | shift (hshift : modifiers.shift = false) : KeyForm target modifiers "shift".toList
  | alt (hshift : modifiers.shift = false) (hcontrol : modifiers.control = false)
      (halt : modifiers.alt = false) : KeyForm target modifiers "alt".toList

theorem isUpper_toLower (letter : Char) : letter.toLower.isUpper = false := by
  have hnat := toNat_toLower letter
  delta Char.isUpper
  rw [decide_eq_false_iff_not]
  change ¬(65 ≤ letter.toLower.toNat ∧ letter.toLower.toNat ≤ 90)
  split at hnat <;> omega

variable {modifiers : Modifiers}

theorem KeyForm.plain (key : List Char) (hkey : modifierOf target key = none) (hhyphen : '-' ∉ key)
    (hlower : key.map Char.toLower = key) : KeyForm target modifiers key := by
  have hform := @KeyForm.word target modifiers key hkey hhyphen
  rw [hlower] at hform
  exact hform

variable {source : List Char}

theorem not_mem_splitOn : ∀ component ∈ source.splitOn '-', '-' ∉ component := by
  induction source with
  | nil => simp
  | cons letter source ih =>
    rw [splitOn_cons_eq_if_modifyHead]
    by_cases hletter : letter = '-'
    · subst hletter
      simpa using ih
    · obtain ⟨first, rest, hsplit⟩ := exists_cons_of_ne_nil (splitOn_ne_nil '-' source)
      rw [hsplit] at ih ⊢
      simpa [hletter, Ne.symm hletter] using ih

variable {components : List (List Char)} {endsWithHyphen : Bool} {parts result : Parts}

theorem keyChar_of_parseComponents
    (h : parseComponents target endsWithHyphen components parts = some result)
    (hchar : result.keyChar = none) : parts.keyChar = none := by
  fun_induction parseComponents target endsWithHyphen components parts with
  | case1 => cases h; exact hchar
  | case2 _ _ _ _ _ ih => exact ih h
  | case3 => cases h; exact hchar
  | case4 => cases h; exact hchar
  | case5 _ _ _ _ _ _ _ ih => cases ih h
  | case6 => cases h

/-- What the components give: the modifiers, and a word or a hyphen as the key. -/
theorem parts_of_parseComponents
    (h : parseComponents target endsWithHyphen components parts = some result)
    (hchar : result.keyChar = none) (hkey : parts.key = none)
    (hhyphens : ∀ component ∈ components, '-' ∉ component) :
    (result.key = none ∧
        leadingModifiers target components parts.modifiers = (result.modifiers, true)) ∨
      ∃ key modifiers, result.key = some key ∧
        leadingModifiers target components parts.modifiers = (modifiers, false) ∧
          result.modifiers.platform = modifiers.platform ∧ KeyForm target result.modifiers key := by
  fun_induction parseComponents target endsWithHyphen components parts with
  | case1 => cases h; exact .inl ⟨hkey, rfl⟩
  | case2 component rest parts setModifier hmodifier ih =>
    rw [leadingModifiers, hmodifier]
    exact ih h hkey fun other hother => hhyphens other (mem_cons_of_mem _ hother)
  | case3 component parts hmodifier =>
    cases h
    right
    refine ⟨_, parts.modifiers, rfl, by rw [leadingModifiers, hmodifier], ?_,
      .word hmodifier (hhyphens component mem_cons_self)⟩
    unfold lastComponent
    split <;> rfl
  | case4 component parts hmodifier =>
    cases h
    exact .inr ⟨_, parts.modifiers, rfl, by rw [leadingModifiers, hmodifier], rfl, .hyphen⟩
  | case5 =>
    cases keyChar_of_parseComponents h hchar
  | case6 => cases h

variable {keystroke : Keystroke}

theorem parse_eq_ok_iff : parse target source = .ok keystroke ↔ ∃ parts,
      parseComponents target (source.getLast? == some '-') (source.splitOn '-')
        ⟨.none, none, none⟩ = some parts ∧ finish parts = some keystroke := by
  rw [parse, ← bind_eq_some_iff]
  cases (parseComponents target (source.getLast? == some '-') (source.splitOn '-')
    ⟨.none, none, none⟩).bind finish with
  | none => simp
  | some other => simp

theorem keyForm_of_parse
    (h : parse target source = .ok keystroke) (hchar : keystroke.keyChar = none) :
    KeyForm target keystroke.modifiers keystroke.key.toList ∧
      keystroke.modifiers.platform = namesPlatform target source := by
  obtain ⟨parts, hparts, hfinish⟩ := parse_eq_ok_iff.mp h
  rw [finish] at hfinish
  cases hkey : parts.key with
  | some key =>
    rw [hkey] at hfinish
    cases hfinish
    rw [map_eq_none_iff] at hchar
    rcases parts_of_parseComponents hparts hchar rfl not_mem_splitOn with
      ⟨hnone, _⟩ | ⟨_, modifiers, hsome, hleading, hplatform, hform⟩
    · rw [hkey] at hnone
      cases hnone
    · rw [hkey] at hsome
      cases hsome
      rw [String.toList_ofList]
      refine ⟨hform, ?_⟩
      rw [namesPlatform, hleading]
      simpa using hplatform
  | none =>
    rw [hkey] at hfinish
    obtain ⟨taken, htaken, rfl⟩ := map_eq_some_iff.mp hfinish
    rw [map_eq_none_iff] at hchar
    rcases parts_of_parseComponents hparts hchar rfl not_mem_splitOn with
      ⟨_, hleading⟩ | ⟨_, _, hsome, _⟩
    · rw [String.toList_ofList, namesPlatform, hleading]
      obtain ⟨⟨control, alt, shift, platform, function⟩, _, _⟩ := parts
      cases shift with
      | true =>
        cases htaken
        exact ⟨.shift rfl, by simp⟩
      | false =>
        cases control with
        | true =>
          cases htaken
          exact ⟨.plain "control".toList (by cases target <;> decide) (by decide)
            (by decide), by simp⟩
        | false =>
          cases alt with
          | true =>
            cases htaken
            exact ⟨.alt rfl rfl rfl, by simp⟩
          | false =>
            cases platform with
            | true =>
              cases htaken
              exact ⟨.plain "platform".toList (by cases target <;> decide) (by decide) (by decide),
                by simp⟩
            | false =>
              cases function with
              | true =>
                cases htaken
                exact ⟨.plain "function".toList (by cases target <;> decide) (by decide)
                  (by decide), by simp⟩
              | false => cases htaken
    · rw [hkey] at hsome
      cases hsome

/-- A printed modifier is read, and the rest is read after it. -/
theorem parseComponents_word (word : List Char) {endsWithHyphen held : Bool}
    {rest : List Char} {setModifier : Modifiers → Modifiers}
    (hhyphen : '-' ∉ word) (hset : modifierOf target word = some setModifier) :
    parseComponents target endsWithHyphen
        (((if held then word ++ ['-'] else []) ++ rest).splitOn '-') ⟨modifiers, none, none⟩ =
      parseComponents target endsWithHyphen (rest.splitOn '-')
        ⟨if held then setModifier modifiers else modifiers, none, none⟩ := by
  cases held with
  | false => rfl
  | true =>
    simp only [if_true, append_assoc, singleton_append]
    rw [splitOn_append_cons_self_of_not_mem hhyphen, parseComponents.eq_def]
    simp only [hset]

/-- What the printer makes of the modifiers. -/
def printedModifiers (target : BuildTarget) (modifiers : Modifiers) : Modifiers :=
  { modifiers with platform := decide (target ≠ .web) && modifiers.platform }

theorem parseComponents_unparse (endsWithHyphen : Bool) (keystroke : Keystroke) :
    parseComponents target endsWithHyphen ((unparse target keystroke).splitOn '-')
        ⟨.none, none, none⟩ =
      parseComponents target endsWithHyphen (keystroke.key.toList.splitOn '-')
        ⟨printedModifiers target keystroke.modifiers, none, none⟩ := by
  obtain ⟨⟨control, alt, shift, platform, function⟩, key, keyChar⟩ := keystroke
  have hplatform : ∀ rest modifiers, parseComponents target endsWithHyphen
      (((if platform then platformWord target else []) ++ rest).splitOn '-')
        ⟨modifiers, none, none⟩ =
      parseComponents target endsWithHyphen (rest.splitOn '-')
        ⟨if decide (target ≠ .web) && platform then { modifiers with platform := true }
          else modifiers, none, none⟩ := by
    intro rest modifiers
    cases target with
    | macos => exact parseComponents_word "cmd".toList (by decide) rfl
    | linux => exact parseComponents_word "super".toList (by decide) rfl
    | windows => exact parseComponents_word "win".toList (by decide) rfl
    | web => cases platform <;> rfl
  rw [unparse]
  refine (parseComponents_word "fn".toList (by decide) rfl).trans ?_
  refine (parseComponents_word "ctrl".toList (by decide) rfl).trans ?_
  refine (parseComponents_word "alt".toList (by decide) rfl).trans ?_
  refine (hplatform _ _).trans ?_
  refine (parseComponents_word "shift".toList (by decide) rfl).trans ?_
  cases function <;> cases control <;> cases alt <;> cases platform <;> cases shift <;>
    cases target <;> rfl

theorem parse_unparse (hchar : keystroke.keyChar = none)
    (hform : KeyForm target keystroke.modifiers keystroke.key.toList) :
    parse target (unparse target keystroke) =
      .ok { keystroke with modifiers := printedModifiers target keystroke.modifiers } := by
  rw [parse_eq_ok_iff, parseComponents_unparse]
  obtain ⟨modifiers, key, keyChar⟩ := keystroke
  obtain rfl : keyChar = none := hchar
  simp only at hform ⊢
  generalize hkey : key.toList = text at hform
  obtain rfl : key = .ofList text := by rw [← hkey, String.ofList_toList]
  cases hform with
  | @word component hword hhyphen =>
    have hlower : '-' ∉ component.map Char.toLower := by
      intro hmem
      obtain ⟨letter, hletter, hhyphenEq⟩ := mem_map.mp hmem
      have hnat := toNat_toLower letter
      rw [hhyphenEq] at hnat
      have hsame : letter = '-' := by
        apply Char.ext
        apply UInt32.toNat_inj.mp
        change letter.toNat = '-'.toNat
        split at hnat
        · have hcode : '-'.toNat = 45 := rfl
          omega
        · exact hnat.symm
      rw [hsame] at hletter
      exact hhyphen hletter
    have hidempotent : (component.map Char.toLower).map Char.toLower =
        component.map Char.toLower := by
      rw [List.map_map]
      exact map_congr_left fun letter _ => toLower_toLower letter
    have hmodifier : modifierOf target (component.map Char.toLower) = none := by
      have hequals : ∀ word, equalsIgnoringCase (component.map Char.toLower) word =
          equalsIgnoringCase component word := by
        intro word
        rw [equalsIgnoringCase, hidempotent, equalsIgnoringCase]
      rw [← hword]
      simp only [modifierOf, hequals]
    refine ⟨lastComponent (component.map Char.toLower)
      ⟨printedModifiers target modifiers, none, none⟩, ?_, ?_⟩
    · rw [splitOn_eq_singleton hlower, parseComponents, hmodifier]
    · unfold finish lastComponent
      rw [hidempotent]
      cases component with
      | nil => rfl
      | cons letter rest =>
        cases rest with
        | nil =>
          simp only [map_cons, map_nil, isUpper_toLower, Bool.or_false]
          rfl
        | cons next rest => rfl
  | hyphen =>
    refine ⟨⟨printedModifiers target modifiers, some ['-'], none⟩, ?_, rfl⟩
    have hend : (unparse target ⟨modifiers, .ofList ['-'], none⟩).getLast? = some '-' := by
      simp [unparse]
    rw [hend]
    rfl
  | shift hshift =>
    refine ⟨⟨{ printedModifiers target modifiers with shift := true }, none, none⟩, rfl, ?_⟩
    simp [finish, takeModifier, printedModifiers, hshift]
  | alt hshift hcontrol halt =>
    refine ⟨⟨{ printedModifiers target modifiers with alt := true }, none, none⟩, rfl, ?_⟩
    simp [finish, takeModifier, printedModifiers, hshift, hcontrol, halt]

/-- What is read without the character that was typed is printed and read back, unless the
platform modifier was read on the web. -/
theorem unparse_reads_back_iff {source : List Char} {keystroke : Keystroke}
    (h : parse target source = .ok keystroke) (hchar : keystroke.keyChar = none) :
    parse target (unparse target keystroke) = .ok keystroke ↔
      (target = .web → namesPlatform target source = false) := by
  obtain ⟨hform, hplatform⟩ := keyForm_of_parse h hchar
  rw [parse_unparse hchar hform, ← hplatform]
  obtain ⟨⟨control, alt, shift, platform, function⟩, key, keyChar⟩ := keystroke
  cases platform <;> simp [printedModifiers]

theorem ctrl_shift_reads_back :
    parse .linux (unparse .linux ⟨⟨true, false, true, true, false⟩, "a", none⟩) =
      .ok ⟨⟨true, false, true, true, false⟩, "a", none⟩ :=
  (@unparse_reads_back_iff _ "ctrl-Super-A".toList _ (by decide) rfl).mpr nofun

/-- On the web the printer has no word for the platform modifier. -/
theorem web_loses_platform : ∃ source keystroke,
    parse .web source = .ok keystroke ∧ keystroke.keyChar = none ∧
      parse .web (unparse .web keystroke) ≠ .ok keystroke :=
  ⟨"cmd-a".toList, ⟨⟨false, false, false, true, false⟩, "a", none⟩, by decide, rfl, by decide⟩

end Keystroke

end OpenGpui.Keys
