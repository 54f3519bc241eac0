/-
Dispatching keystrokes: what is typed waits for more keys, matches bindings, or is
replayed from its longest bound beginning on.  No key that was typed is lost.
-/
import OpenGpui.Keys.Keymap

namespace OpenGpui.Keys

open List Option

variable {α : Type} [ActionData α]

structure DispatchNode where
  context : Option KeyContext

structure DispatchTree (α : Type) [ActionData α] where
  nodes : List DispatchNode
  keymap : Keymap α

/-- The nodes from the root to the focused one. -/
abbrev DispatchTree.Path (tree : DispatchTree α) := List (Fin tree.nodes.length)

structure Replay (α : Type) where
  keystroke : Keystroke
  bindings : List (KeyBinding α)

structure DispatchResult (α : Type) where
  pending : List Keystroke
  pendingHasBinding : Bool
  bindings : List (KeyBinding α)
  toReplay : List (Replay α)
  contextStack : List KeyContext

namespace DispatchTree

variable (os : TargetOs) (tree : DispatchTree α) (dispatchPath : tree.Path)

def contextStack : List KeyContext :=
  dispatchPath.filterMap fun nodeId => tree.nodes[nodeId].context

def bindingsForInput (input : List Keystroke) : InputBindings α :=
  tree.keymap.bindingsForInput os input (tree.contextStack dispatchPath)

/-- Whether keystrokes have bindings. -/
def isBound (input : List Keystroke) : Bool :=
  !(tree.bindingsForInput os dispatchPath input).bindings.isEmpty

/-- Replays the longest beginning of the input that has bindings, or the first key when
none has; of no input there is nothing to replay. -/
def replayPrefix (input : List Keystroke) : Option (List Keystroke × List (Replay α)) :=
  let longest := lastBelow (fun last => tree.isBound os dispatchPath (input.take (last + 1)))
    input.length
  match longest with
  | some last =>
    (input.take (last + 1)).getLast?.map fun keystroke =>
      (input.drop (last + 1), [⟨keystroke,
          (tree.bindingsForInput os dispatchPath (input.take (last + 1))).bindings⟩])
  | none => input.head?.map fun keystroke => (input.tail, [⟨keystroke, []⟩])

/-- The key last typed stands for the keystrokes of a chunk, with the chunk's bindings. -/
structure Replays (chunk : List Keystroke) (replay : Replay α) : Prop where
  keystroke : chunk.getLast? = some replay.keystroke
  bindings : replay.bindings = (tree.bindingsForInput os dispatchPath chunk).bindings

variable {input : List Keystroke}

theorem isBound_eq_false_iff : tree.isBound os dispatchPath input = false ↔
      (tree.bindingsForInput os dispatchPath input).bindings = [] := by
  rw [isBound, Bool.not_eq_false', List.isEmpty_iff]

variable {os tree dispatchPath}

theorem replayPrefix_spec (hinput : input ≠ []) :
    ∃ chunk suffix replay, tree.replayPrefix os dispatchPath input = some (suffix, [replay]) ∧
        input = chunk ++ suffix ∧ LongestPrefix.IsFirst (tree.isBound os dispatchPath) input chunk ∧
            tree.Replays os dispatchPath chunk replay := by
  rw [replayPrefix]
  cases hlongest : lastBelow (fun last => tree.isBound os dispatchPath
      (input.take (last + 1))) input.length with
  | some last =>
    obtain ⟨hlt, hbound, hlonger⟩ := lastBelow_eq_some_iff.mp hlongest
    have hlength : (input.take (last + 1)).length = last + 1 := by
      rw [length_take]
      omega
    have hne : input.take (last + 1) ≠ [] := by
      intro hnil
      rw [hnil] at hlength
      cases hlength
    refine ⟨input.take (last + 1), input.drop (last + 1), ⟨(input.take (last + 1)).getLast hne,
        (tree.bindingsForInput os dispatchPath (input.take (last + 1))).bindings⟩, ?_,
      (take_append_drop _ _).symm, ⟨ take_prefix _ _, hne, ?_⟩, ?_⟩
    · simp only [getLast?_eq_some_getLast hne, map_some]
    · left
      refine ⟨hbound, ?_⟩
      intro longer hprefix hmore
      have hle := hprefix.length_le
      have hfails := hlonger (longer.length - 1) (by omega) (by omega)
      rw [Nat.sub_add_cancel (by omega), ← prefix_iff_eq_take.mp hprefix] at hfails
      exact hfails
    · exact ⟨getLast?_eq_some_getLast hne, rfl⟩
  | none =>
    have hnone := lastBelow_eq_none_iff.mp hlongest
    have hunbound : ∀ first, first <+: input → first ≠ [] →
        tree.isBound os dispatchPath first = false := by
      intro first hprefix hne
      have hpos : 0 < first.length := length_pos_of_ne_nil hne
      have hle := hprefix.length_le
      have hfails := hnone (first.length - 1) (by omega)
      rw [Nat.sub_add_cancel (by omega), ← prefix_iff_eq_take.mp hprefix] at hfails
      exact hfails
    cases input with
    | nil => exact absurd rfl hinput
    | cons keystroke rest =>
      have hfirst : [keystroke] <+: keystroke :: rest := ⟨rest, rfl⟩
      refine ⟨[keystroke], rest, ⟨keystroke, []⟩, rfl, rfl,
        ⟨hfirst, cons_ne_nil _ _, .inr ⟨rfl, hunbound⟩⟩, rfl, ?_⟩
      exact ((tree.isBound_eq_false_iff os dispatchPath).mp
        (hunbound [keystroke] hfirst (cons_ne_nil _ _))).symm

theorem length_lt_of_replayPrefix {suffix : List Keystroke} {toReplay : List (Replay α)}
    (h : tree.replayPrefix os dispatchPath input = some (suffix, toReplay)) :
    suffix.length < input.length := by
  by_cases hinput : input = []
  · rw [hinput] at h
    cases h
  · obtain ⟨chunk, rest, replay, hreplay, happend, hfirst, -⟩ := @replayPrefix_spec _ _ os
      tree dispatchPath _ hinput
    rw [hreplay, some.injEq, Prod.mk.injEq] at h
    have hpos := length_pos_of_ne_nil hfirst.ne_nil
    rw [← h.1, happend, length_append]
    omega

variable (os tree dispatchPath)

/-- What one more key makes of the keys that were pending. -/
def dispatchKey (input : List Keystroke) (keystroke : Keystroke) : Option (DispatchResult α) :=
  let typed := input ++ [keystroke]
  let found := tree.bindingsForInput os dispatchPath typed
  let unmatched : DispatchResult α :=
    { pending := [], pendingHasBinding := false, bindings := [], toReplay := []
      contextStack := tree.contextStack dispatchPath }
  if found.pending then
    some { unmatched with pending := typed, pendingHasBinding := !found.bindings.isEmpty }
  else if tree.isBound os dispatchPath typed then
    some { unmatched with bindings := found.bindings }
  else if typed.length = 1 then some unmatched
  else
    match _hreplay : tree.replayPrefix os dispatchPath input with
    | none => none
    | some (suffix, toReplay) =>
      (dispatchKey suffix keystroke).map fun result =>
        { result with toReplay := toReplay ++ result.toReplay }
termination_by input.length
decreasing_by exact length_lt_of_replayPrefix _hreplay

/-- Turns keys that are still pending into replays. -/
def flushDispatch (input : List Keystroke) : Option (List (Replay α)) :=
  match _hreplay : tree.replayPrefix os dispatchPath input with
  | none => none
  | some (suffix, toReplay) =>
    if suffix.isEmpty then some toReplay
    else (flushDispatch suffix).map (toReplay ++ ·)
termination_by input.length
decreasing_by exact length_lt_of_replayPrefix _hreplay

/-- The last chunk waits for more keys, has bindings and waits for none, or is the key
just typed, which neither has bindings nor waits. -/
inductive LastChunk (keystroke : Keystroke) (result : DispatchResult α)
    (last : List Keystroke) : Prop where
  | pending (hpending : result.pending = last) (hbindings : result.bindings = [])
      (hwaits : (tree.bindingsForInput os dispatchPath last).pending = true)
  | bound (hpending : result.pending = [])
      (hbindings : result.bindings = (tree.bindingsForInput os dispatchPath last).bindings)
      (hbound : tree.isBound os dispatchPath last = true)
      (hends : (tree.bindingsForInput os dispatchPath last).pending = false)
  | unmatched (hpending : result.pending = []) (hbindings : result.bindings = [])
      (hlast : last = [keystroke]) (hunbound : tree.isBound os dispatchPath last = false)
      (hends : (tree.bindingsForInput os dispatchPath last).pending = false)

/-- Every key typed is in a chunk that is replayed, or in the last. -/
structure KeepsTypedKeys (typed : List Keystroke) (replays : List (Replay α))
    (chunks : List (List Keystroke)) (last : List Keystroke) : Prop where
  keys : chunks.flatten ++ last = typed
  splits : LongestPrefix.Splits (tree.isBound os dispatchPath) typed chunks last
  replays : List.Forall₂ (tree.Replays os dispatchPath) chunks replays

variable {os tree dispatchPath}

theorem KeepsTypedKeys.none (last : List Keystroke) :
    tree.KeepsTypedKeys os dispatchPath last [] [] last :=
  ⟨rfl, .done last, .nil⟩

theorem KeepsTypedKeys.cons {typed chunk rest last : List Keystroke} {replay : Replay α}
    {replays : List (Replay α)} {chunks : List (List Keystroke)}
    (htyped : typed = chunk ++ rest)
    (hfirst : LongestPrefix.IsFirst (tree.isBound os dispatchPath) typed chunk)
    (hreplay : tree.Replays os dispatchPath chunk replay)
    (hrest : tree.KeepsTypedKeys os dispatchPath rest replays chunks last) :
    tree.KeepsTypedKeys os dispatchPath typed (replay :: replays) (chunk :: chunks) last where
  keys := (LongestPrefix.Splits.chunk htyped hfirst hrest.splits).flatten_append
  splits := .chunk htyped hfirst hrest.splits
  replays := .cons hreplay hrest.replays

theorem dispatchKey_keeps (input : List Keystroke) (keystroke : Keystroke) :
    ∃ result chunks last, tree.dispatchKey os dispatchPath input keystroke = some result ∧
        tree.KeepsTypedKeys os dispatchPath (input ++ [keystroke]) result.toReplay chunks
          last ∧ tree.LastChunk os dispatchPath keystroke result last := by
  induction hlength : input.length using Nat.strong_induction_on generalizing input with
  | _ length ih =>
    rw [dispatchKey]
    by_cases hpending : (tree.bindingsForInput os dispatchPath
        (input ++ [keystroke])).pending = true
    · rw [if_pos hpending]
      exact ⟨_, [], _, rfl, .none _, .pending rfl rfl hpending⟩
    · rw [if_neg hpending]
      by_cases hbound : tree.isBound os dispatchPath (input ++ [keystroke]) = true
      · rw [if_pos hbound]
        exact ⟨_, [], _, rfl, .none _, .bound rfl rfl hbound (Bool.eq_false_iff.mpr hpending)⟩
      · rw [if_neg hbound]
        by_cases hsingle : (input ++ [keystroke]).length = 1
        · rw [if_pos hsingle]
          have hnil : input = [] := by
            rw [length_append, length_singleton] at hsingle
            exact length_eq_zero_iff.mp (by omega)
          exact ⟨_, [], _, rfl, .none _, .unmatched rfl rfl (by rw [hnil]; rfl)
            (Bool.eq_false_iff.mpr hbound) (Bool.eq_false_iff.mpr hpending)⟩
        · rw [if_neg hsingle]
          have hinput : input ≠ [] := by
            rintro rfl
            exact hsingle rfl
          obtain ⟨chunk, suffix, replay, hreplay, happend, hfirst, hkeys⟩ :=
            @replayPrefix_spec _ _ os tree dispatchPath _ hinput
          have hshorter := length_lt_of_replayPrefix hreplay
          obtain ⟨result, chunks, last, hresult, hkeeps, hlast⟩ :=
            ih suffix.length (by omega) suffix rfl
          have hunbound : tree.isBound os dispatchPath (chunk ++ (suffix ++ [keystroke])) =
              false := by
            rw [← append_assoc, ← happend]
            exact Bool.eq_false_iff.mpr hbound
          refine ⟨{ result with toReplay := replay :: result.toReplay }, chunk :: chunks,
            last, ?_, ?_, ?_⟩
          · split
            · next hnone =>
                rw [hreplay] at hnone
                cases hnone
            · next found toReplay hsome =>
                rw [hreplay] at hsome
                obtain ⟨rfl, rfl⟩ := hsome
                rw [hresult]
                rfl
          · rw [happend, append_assoc]
            apply KeepsTypedKeys.cons rfl _ hkeys hkeeps
            rw [← append_assoc] at hunbound ⊢
            rw [← happend] at hunbound ⊢
            exact hfirst.concat hunbound
          · cases hlast with
            | pending hpending hbindings hwaits => exact .pending hpending hbindings hwaits
            | bound hpending hbindings hbound hends => exact .bound hpending hbindings hbound hends
            | unmatched hpending hbindings hlast hnone hends =>
              exact .unmatched hpending hbindings hlast hnone hends

theorem flushDispatch_keeps (input : List Keystroke) (hinput : input ≠ []) :
    ∃ replays chunks, tree.flushDispatch os dispatchPath input = some replays ∧
      tree.KeepsTypedKeys os dispatchPath input replays chunks [] := by
  induction hlength : input.length using Nat.strong_induction_on generalizing input with
  | _ length ih =>
    obtain ⟨chunk, suffix, replay, hreplay, happend, hfirst, hkeys⟩ :=
      @replayPrefix_spec _ _ os tree dispatchPath _ hinput
    have hshorter := length_lt_of_replayPrefix hreplay
    rw [flushDispatch]
    split
    · next hnone =>
        rw [hreplay] at hnone
        cases hnone
    · next found toReplay hsome =>
        rw [hreplay] at hsome
        obtain ⟨rfl, rfl⟩ := hsome
        by_cases hsuffix : suffix = []
        · subst hsuffix
          exact ⟨_, _, rfl, .cons happend hfirst hkeys (.none [])⟩
        · obtain ⟨replays, chunks, hflush, hkeeps⟩ :=
            ih suffix.length (by omega) suffix hsuffix rfl
          have hempty : ¬suffix.isEmpty = true := by
            rw [List.isEmpty_iff]
            exact hsuffix
          rw [if_neg hempty, hflush]
          exact ⟨_, _, rfl, .cons happend hfirst hkeys hkeeps⟩

variable (os tree dispatchPath)

/-- Both a key typed after pending ones and giving up on these terminate without a panic
and keep every key. -/
theorem keeps_typed_keys : (∀ input keystroke, ∃ result chunks last,
      tree.dispatchKey os dispatchPath input keystroke = some result ∧
        tree.KeepsTypedKeys os dispatchPath (input ++ [keystroke]) result.toReplay chunks
          last ∧ tree.LastChunk os dispatchPath keystroke result last) ∧
      ∀ first rest, ∃ replays chunks,
        tree.flushDispatch os dispatchPath (first :: rest) = some replays ∧
          tree.KeepsTypedKeys os dispatchPath (first :: rest) replays chunks [] :=
  ⟨dispatchKey_keeps, fun _ _ => flushDispatch_keeps _ (List.cons_ne_nil _ _)⟩

end DispatchTree

end OpenGpui.Keys
