/-
The chords that can follow what has been typed, as they are listed and as they are waited
for.
-/
import OpenGpui.Keys.Shortcuts

namespace OpenGpui.Keys

open List Option MatchedBinding

variable {α : Type} [ActionData α]

namespace Keymap

variable (os : TargetOs) (keymap : Keymap α)

/-- The bindings that an input begins and that dispatch, in the order of matches. -/
def possibleNextMatches (input : List Keystroke) (contextStack : List KeyContext) :
    List (MatchedBinding α) :=
  (keymap.bindings.zipIdx.reverse.filterMap fun entry =>
    (bindingEnabled entry.1 contextStack).bind fun depth =>
      if entry.1.matchKeystrokes os input = some true ∧ entry.1.disables = false then
        some ⟨depth, entry.2, entry.1⟩
      else none).insertionSort (·.precedes ·)

def possibleNextBindingsForInput (input : List Keystroke) (contextStack : List KeyContext) :
    List (KeyBinding α) :=
  (keymap.possibleNextMatches os input contextStack).map binding

/-- The match of an input that is dispatched first. -/
def firstMatch (input : List Keystroke) (contextStack : List KeyContext) :
    Option (MatchedBinding α) :=
  (dispatchedMatches []
    ((keymap.matchedBindings os input contextStack).insertionSort (·.precedes ·))).head?

/-- A later entry that is enabled takes the keystrokes of a binding away. -/
def DisabledLater (contextStack : List KeyContext) (candidate : MatchedBinding α) : Prop :=
  ∃ (later : Nat) (entry : KeyBinding α) (depth : Nat), candidate.ix < later ∧
    keymap.bindings[later]? = some entry ∧ bindingEnabled entry contextStack = some depth ∧
      entry.disables = true ∧ entry.keystrokes = candidate.binding.keystrokes

variable {os keymap} {input : List Keystroke} {contextStack : List KeyContext}

/-- The entries that are enabled and pass a test, with the depth they are enabled at. -/
theorem mem_enabled {β : Type} (passes : KeyBinding α → Prop) [DecidablePred passes]
    (make : Nat → Nat → KeyBinding α → β) {made : β} :
    (made ∈ keymap.bindings.zipIdx.reverse.filterMap fun entry =>
        (bindingEnabled entry.1 contextStack).bind fun depth =>
          if passes entry.1 then some (make depth entry.2 entry.1) else none) ↔
      ∃ (ix : Nat) (binding : KeyBinding α) (depth : Nat),
        keymap.bindings[ix]? = some binding ∧ bindingEnabled binding contextStack = some depth ∧
          passes binding ∧ make depth ix binding = made := by
  rw [mem_filterMap]
  constructor
  · rintro ⟨⟨binding, ix⟩, hmem, hmade⟩
    rw [mem_reverse, mem_zipIdx_iff_getElem?] at hmem
    obtain ⟨depth, hdepth, hmade⟩ := bind_eq_some_iff.mp hmade
    rw [ite_none_right_eq_some, some.injEq] at hmade
    exact ⟨ix, binding, depth, hmem, hdepth, hmade⟩
  · rintro ⟨ix, binding, depth, hbinding, hdepth, hpasses, rfl⟩
    refine ⟨(binding, ix), ?_, ?_⟩
    · rw [mem_reverse, mem_zipIdx_iff_getElem?]
      exact hbinding
    · rw [hdepth, bind_some, if_pos hpasses]

theorem mem_possibleNextMatches {candidate : MatchedBinding α} :
    candidate ∈ keymap.possibleNextMatches os input contextStack ↔
      keymap.bindings[candidate.ix]? = some candidate.binding ∧
        bindingEnabled candidate.binding contextStack = some candidate.depth ∧
          candidate.binding.matchKeystrokes os input = some true ∧
            candidate.binding.disables = false := by
  rw [possibleNextMatches, mem_insertionSort, mem_enabled
    (fun binding => binding.matchKeystrokes os input = some true ∧ binding.disables = false)
    MatchedBinding.mk]
  constructor
  · rintro ⟨_, _, _, hbinding, hdepth, hmatch, rfl⟩
    exact ⟨hbinding, hdepth, hmatch⟩
  · rintro ⟨hbinding, hdepth, hmatch⟩
    exact ⟨_, _, _, hbinding, hdepth, hmatch, rfl⟩

theorem mem_waiting {entry : Nat × KeyBinding α} {firstMatch : Option (MatchedBinding α)} :
    (entry ∈ (keymap.pendingBindings os input contextStack).reverse.filter fun entry =>
        !(firstMatch.map ix).any (entry.1 < ·)) ↔
      keymap.bindings[entry.1]? = some entry.2 ∧
        (∃ depth, bindingEnabled entry.2 contextStack = some depth) ∧
          entry.2.matchKeystrokes os input = some true ∧
            ∀ first ∈ firstMatch, first.ix ≤ entry.1 := by
  have hfirst : (!(firstMatch.map ix).any (entry.1 < ·)) = true ↔
      ∀ first ∈ firstMatch, first.ix ≤ entry.1 := by
    cases firstMatch with
    | none => simp
    | some first => simp
  rw [mem_filter, hfirst, mem_reverse, pendingBindings, mem_enabled
    (fun binding => binding.matchKeystrokes os input = some true)
    fun _ ix binding => (ix, binding)]
  constructor
  · rintro ⟨⟨_, _, depth, hbinding, hdepth, hmatch, rfl⟩, hafter⟩
    exact ⟨hbinding, ⟨depth, hdepth⟩, hmatch, hafter⟩
  · rintro ⟨hbinding, ⟨depth, hdepth⟩, hmatch, hafter⟩
    exact ⟨⟨_, _, depth, hbinding, hdepth, hmatch, rfl⟩, hafter⟩

theorem pairwise_pendingBindings :
    (keymap.pendingBindings os input contextStack).reverse.Pairwise (·.1 < ·.1) := by
  rw [pendingBindings, ← filterMap_reverse, reverse_reverse, pairwise_filterMap]
  have hplaces : keymap.bindings.zipIdx.Pairwise (·.2 < ·.2) := by
    rw [← pairwise_map (f := Prod.snd) (R := (· < ·)), zipIdx_map_snd]
    exact pairwise_lt_range'
  refine hplaces.imp ?_
  intro first second hlt one hone two htwo
  obtain ⟨_, _, hone⟩ := bind_eq_some_iff.mp hone
  obtain ⟨_, _, htwo⟩ := bind_eq_some_iff.mp htwo
  rw [ite_none_right_eq_some, some.injEq] at hone htwo
  rw [← hone.2, ← htwo.2]
  exact hlt

end Keymap

omit [ActionData α] in
theorem pendingKeystrokes_eq (firstBindingIndex : Option Nat)
    (entries : List (Nat × KeyBinding α)) (pending : List (List KeybindingKeystroke)) :
    pendingKeystrokes firstBindingIndex entries pending = pendingKeystrokes none
        (entries.filter fun entry => !firstBindingIndex.any (entry.1 < ·)) pending := by
  induction entries generalizing pending with
  | nil => rfl
  | cons entry rest ih =>
    rw [pendingKeystrokes, filter_cons]
    by_cases hskip : firstBindingIndex.any (entry.1 < ·) = true
    · rw [if_pos hskip, hskip]
      exact ih pending
    · rw [if_neg hskip, Bool.eq_false_iff.mpr hskip, ih, ih]
      rfl

omit [ActionData α] in
/-- Keystrokes are waited for that a binding was added with and that no entry took away
after it. -/
theorem mem_pendingKeystrokes {entries : List (Nat × KeyBinding α)}
    (hordered : entries.Pairwise (·.1 < ·.1)) {pending : List (List KeybindingKeystroke)}
    {keystrokes : List KeybindingKeystroke} :
    keystrokes ∈ pendingKeystrokes none entries pending ↔
      (keystrokes ∈ pending ∧ ∀ entry ∈ entries, entry.2.disables = true →
          entry.2.keystrokes ≠ keystrokes) ∨
        ∃ entry ∈ entries, entry.2.disables = false ∧ entry.2.keystrokes = keystrokes ∧
          ∀ later ∈ entries, entry.1 < later.1 → later.2.disables = true →
            later.2.keystrokes ≠ keystrokes := by
  induction entries generalizing pending with
  | nil => simp [pendingKeystrokes]
  | cons entry rest ih =>
    obtain ⟨ix, binding⟩ := entry
    obtain ⟨hfirst, hrest⟩ := pairwise_cons.mp hordered
    have hback : ∀ other ∈ rest, ¬other.1 < ix := fun other hother hlt =>
      Nat.lt_asymm hlt (hfirst other hother)
    have hafter : ∀ other : Nat × KeyBinding α, (other ∈ rest ∧ other.2.disables = false ∧
        other.2.keystrokes = keystrokes ∧ ∀ later ∈ (ix, binding) :: rest, other.1 < later.1 →
        later.2.disables = true → later.2.keystrokes ≠ keystrokes) ↔ (other ∈ rest ∧
        other.2.disables = false ∧ other.2.keystrokes = keystrokes ∧ ∀ later ∈ rest, other.1 <
        later.1 → later.2.disables = true → later.2.keystrokes ≠ keystrokes) := by
      intro other
      refine and_congr_right fun hother => and_congr_right fun _ => and_congr_right fun _ => ?_
      rw [forall_mem_cons]
      exact and_iff_right fun hlt => absurd hlt (hback other hother)
    rw [pendingKeystrokes, if_neg (by simp), exists_mem_cons_iff, forall_mem_cons]
    simp only [hafter]
    by_cases hdisables : binding.disables = true
    · rw [if_pos hdisables, ih hrest, mem_filter, bne_iff_ne]
      simp only [hdisables, Bool.true_eq_false, false_and, false_or, true_imp_iff]
      tauto
    · have hlater : (∀ later ∈ (ix, binding) :: rest, ix < later.1 →
          later.2.disables = true → later.2.keystrokes ≠ keystrokes) ↔
            ∀ later ∈ rest, later.2.disables = true → later.2.keystrokes ≠ keystrokes := by
        rw [forall_mem_cons]
        constructor
        · exact fun h later hmem => h.2 later hmem (hfirst later hmem)
        · exact fun h => ⟨fun hlt => absurd hlt (Nat.lt_irrefl _), fun later hmem _ => h later hmem⟩
      rw [if_neg hdisables, ih hrest, mem_insert_iff, hlater]
      simp only [hdisables, true_and]
      tauto

namespace Keymap

variable {os : TargetOs} {keymap : Keymap α} {input : List Keystroke}
  {contextStack : List KeyContext}

/-- More keys are waited for exactly when a binding is listed that was not added before
the first match, and that no later entry takes away. -/
theorem pending_iff_possible_next : (keymap.bindingsForInput os input contextStack).pending = true ↔
      ∃ candidate ∈ keymap.possibleNextMatches os input contextStack,
        (∀ first ∈ keymap.firstMatch os input contextStack, first.ix ≤ candidate.ix) ∧
          ¬keymap.DisabledLater contextStack candidate := by
  have hmatch : ∀ binding other : KeyBinding α, other.keystrokes = binding.keystrokes →
      other.matchKeystrokes os input = binding.matchKeystrokes os input := by
    intro binding other hkeys
    rw [KeyBinding.matchKeystrokes, KeyBinding.matchKeystrokes, hkeys]
  rw [bindingsForInput, Bool.not_eq_true', isEmpty_eq_false_iff_exists_mem, pendingKeystrokes_eq]
  simp only [mem_pendingKeystrokes (pairwise_pendingBindings.filter _)]
  constructor
  · rintro ⟨keystrokes, ⟨hnil, _⟩ | ⟨entry, hentry, hdisables, rfl, hlater⟩⟩
    · cases hnil
    · obtain ⟨hplace, ⟨depth, hdepth⟩, hpending, hfirst⟩ := mem_waiting.mp hentry
      refine ⟨⟨depth, entry.1, entry.2⟩,
        mem_possibleNextMatches.mpr ⟨hplace, hdepth, hpending, hdisables⟩, hfirst, ?_⟩
      rintro ⟨later, other, deeper, hlt, hother, hdeeper, htakes, hkeys⟩
      refine hlater (later, other) (mem_waiting.mpr ⟨hother, ⟨deeper, hdeeper⟩, ?_, ?_⟩)
        hlt htakes hkeys
      · rw [hmatch _ _ hkeys]
        exact hpending
      · exact fun first hmem => (hfirst first hmem).trans (Nat.le_of_lt hlt)
  · rintro ⟨candidate, hcandidate, hfirst, hkept⟩
    obtain ⟨hplace, hdepth, hpending, hdisables⟩ := mem_possibleNextMatches.mp hcandidate
    refine ⟨candidate.binding.keystrokes, Or.inr ⟨(candidate.ix, candidate.binding),
      mem_waiting.mpr ⟨hplace, ⟨_, hdepth⟩, hpending, hfirst⟩, hdisables, rfl, ?_⟩⟩
    intro later hlater hlt htakes hkeys
    obtain ⟨hother, ⟨deeper, hdeeper⟩, _⟩ := mem_waiting.mp hlater
    exact hkept ⟨later.1, later.2, deeper, hlt, hother, hdeeper, htakes, hkeys⟩

end Keymap

/-- A chord, and a later binding of its first key: the chord is listed and not waited for. -/
theorem earlierChord_is_listed : ∃ keymap : Keymap EditorAction,
    ¬(keymap.possibleNextBindingsForInput .other [⟨.none, "x", none⟩] [] ≠ [] ↔
      (keymap.bindingsForInput .other [⟨.none, "x", none⟩] []).pending = true) := by
  refine ⟨.new [⟨.app .copy, [plainKey "x", plainKey "x"], none, none⟩, copyKey 0], ?_⟩
  intro hsame
  have hpending := hsame.mp (by decide)
  revert hpending
  decide

end OpenGpui.Keys
