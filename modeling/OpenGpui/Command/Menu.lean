/-
The menu tree of a registry snapshot.  Each command is inserted along its menu path, and
a submenu is found by its label; the walk of the tree gives the commands back at their
paths.
-/
import OpenGpui.Command.Scopes

namespace OpenGpui.Command

open List

structure CommandMenuCommand where
  commandId : String
  label : String
  icon : Option CommandIconDescriptor
  shortcut : Option String
  disabled : Bool
  disabledReason : Option String
  tooltip : Option String
  accessibilityDescription : Option String
  when : Option String

def CommandMenuCommand.fromDescriptor (descriptor : CommandDescriptor) : CommandMenuCommand where
  commandId := descriptor.id
  label := descriptor.label
  icon := descriptor.icon
  shortcut := descriptor.shortcut
  disabled := descriptor.disabled
  disabledReason := descriptor.disabledReason
  tooltip := descriptor.tooltip
  accessibilityDescription := descriptor.accessibilityDescription
  when := descriptor.when

inductive CommandMenuEntry where
  | command (command : CommandMenuCommand)
  | submenu (label : String) (entries : List CommandMenuEntry)

structure CommandMenuTree where
  revision : String
  entries : List CommandMenuEntry

/-- The label of a submenu, none of a command. -/
def CommandMenuEntry.submenuLabel : CommandMenuEntry → Option String
  | command _ => none
  | submenu label _ => some label

open CommandMenuEntry (submenuLabel)

/-- The entries with a submenu of the label, and its index. -/
def findOrPushSubmenu (entries : List CommandMenuEntry) (segment : String) :
    Nat × List CommandMenuEntry :=
  match entries.findIdx? fun entry => entry.submenuLabel == some segment with
  | some index => (index, entries)
  | none => (entries.length, entries ++ [.submenu segment []])

@[grind =] def insertCommandEntry (entries : List CommandMenuEntry) :
    List String → CommandMenuCommand → List CommandMenuEntry
  | [], command => entries ++ [.command command]
  | segment :: rest, command =>
    let found := findOrPushSubmenu entries segment
    match found.2[found.1]? with
    | some (.submenu label inner) =>
      found.2.set found.1 (.submenu label (insertCommandEntry inner rest command))
    -- no entry but a submenu stands at the index
    | _ => found.2

def CommandMenuTree.fromRegistrySnapshot (snapshot : CommandRegistrySnapshot) :
    CommandMenuTree where
  revision := snapshot.revision
  entries := snapshot.descriptors.foldl (fun entries descriptor =>
    insertCommandEntry entries descriptor.menuPath (.fromDescriptor descriptor)) []

/-! What the tree says: its walk, and the commands at a path. -/

variable (label : String)

/-- Commands with the labels that lead to them, seen from outside a submenu. -/
def under (items : List (List String × CommandMenuCommand)) :
    List (List String × CommandMenuCommand) :=
  items.map fun item => (label :: item.1, item.2)

mutual

/-- The commands of an entry from left to right, each with the labels that lead to it. -/
def CommandMenuEntry.walk : CommandMenuEntry → List (List String × CommandMenuCommand)
  | .command leaf => [([], leaf)]
  | .submenu label entries => under label (walkEntries entries)

def walkEntries : List CommandMenuEntry → List (List String × CommandMenuCommand)
  | [] => []
  | entry :: rest => entry.walk ++ walkEntries rest

end

variable (path : List String)

/-- The commands a walk meets at a path, in its order. -/
def commandsAt (walked : List (List String × CommandMenuCommand)) :
    List CommandMenuCommand :=
  (walked.filter fun item => item.1 = path).map Prod.snd

/-- Sibling submenus have different labels and each has entries, on every level. -/
inductive WellFormed : List CommandMenuEntry → Prop
  | intro {entries : List CommandMenuEntry}
      (distinct : (entries.filterMap submenuLabel).Nodup)
      (nonempty : ∀ label inner, .submenu label inner ∈ entries → inner ≠ [])
      (inner : ∀ label inner, .submenu label inner ∈ entries → WellFormed inner) :
      WellFormed entries

theorem WellFormed.nil : WellFormed [] :=
  .intro nodup_nil (fun _ _ h => nomatch h) (fun _ _ h => nomatch h)

variable {entries : List CommandMenuEntry}

theorem WellFormed.distinct (h : WellFormed entries) : (entries.filterMap submenuLabel).Nodup := by
  cases h
  assumption

theorem WellFormed.of_mem {inner : List CommandMenuEntry} {label : String}
    (h : WellFormed entries) (hmem : .submenu label inner ∈ entries) :
    inner ≠ [] ∧ WellFormed inner := by
  cases h with
  | intro _ nonempty inner => exact ⟨nonempty _ _ hmem, inner _ _ hmem⟩

theorem walkEntries_append (first second : List CommandMenuEntry) :
    walkEntries (first ++ second) = walkEntries first ++ walkEntries second := by
  induction first with
  | nil => rfl
  | cons entry rest ih => rw [cons_append, walkEntries, walkEntries, ih, append_assoc]

/-- A segment either names a submenu, which the rest of the path goes on in, or gets a new one at
the end. -/
theorem insertCommandEntry_cons (entries : List CommandMenuEntry) (segment : String)
    (rest : List String) (command : CommandMenuCommand) :
    (∃ before inner after, entries = before ++ .submenu segment inner :: after ∧
      insertCommandEntry entries (segment :: rest) command =
        before ++ .submenu segment (insertCommandEntry inner rest command) :: after) ∨
    (segment ∉ entries.filterMap submenuLabel ∧
      insertCommandEntry entries (segment :: rest) command =
        entries ++ [.submenu segment (insertCommandEntry [] rest command)]) := by
  rw [insertCommandEntry, findOrPushSubmenu]
  cases hfound : entries.findIdx? fun entry => entry.submenuLabel == some segment with
  | none =>
    right
    constructor
    · intro hin
      obtain ⟨entry, hentry, hlabel⟩ := mem_filterMap.mp hin
      rw [findIdx?_eq_none_iff] at hfound
      have hnone := hfound entry hentry
      rw [hlabel] at hnone
      simp at hnone
    · simp
  | some index =>
    left
    obtain ⟨hlt, hlabel, _⟩ := findIdx?_eq_some_iff_getElem.mp hfound
    rw [beq_iff_eq] at hlabel
    cases hentry : entries[index] with
    | command other =>
      rw [hentry] at hlabel
      cases hlabel
    | submenu label inner =>
      rw [hentry] at hlabel
      obtain rfl := Option.some.inj hlabel
      have hget : entries[index]? = some (.submenu label inner) := by
        rw [getElem?_eq_getElem hlt, hentry]
      refine ⟨entries.take index, inner, entries.drop (index + 1), ?_, ?_⟩
      · rw [← hentry, getElem_cons_drop, take_append_drop]
      · simp only [hget]
        rw [set_eq_take_append_cons_drop, if_pos hlt]

theorem insertCommandEntry_ne_nil (entries : List CommandMenuEntry) (path : List String)
    (command : CommandMenuCommand) : insertCommandEntry entries path command ≠ [] := by
  cases path with
  | nil => simp [insertCommandEntry]
  | cons segment rest =>
    rcases insertCommandEntry_cons entries segment rest command with
      ⟨before, inner, after, _, heq⟩ | ⟨_, heq⟩
    · simp [heq]
    · simp [heq]

theorem WellFormed.insertCommandEntry (h : WellFormed entries)
    (path : List String) (command : CommandMenuCommand) :
    WellFormed (insertCommandEntry entries path command) := by
  induction path generalizing entries with
  | nil =>
    rw [Command.insertCommandEntry]
    refine .intro ?_ ?_ ?_
    · simpa [filterMap_cons, submenuLabel] using h.distinct
    · intro label inner hmem
      exact (h.of_mem (by simpa using hmem)).1
    · intro label inner hmem
      exact (h.of_mem (by simpa using hmem)).2
  | cons segment rest ih =>
    rcases insertCommandEntry_cons entries segment rest command with
      ⟨before, inner, after, rfl, heq⟩ | ⟨hnew, heq⟩
    · have hinner := ih (h.of_mem (mem_append_right _ mem_cons_self)).2
      have hold : ∀ label other, CommandMenuEntry.submenu label other ∈
          before ++ .submenu segment (Command.insertCommandEntry inner rest command) :: after →
            other = Command.insertCommandEntry inner rest command ∨
              .submenu label other ∈ before ++ .submenu segment inner :: after := by
        intro label other hmem
        simp only [mem_append, mem_cons, CommandMenuEntry.submenu.injEq] at hmem ⊢
        tauto
      rw [heq]
      refine .intro ?_ ?_ ?_
      · simpa [submenuLabel] using h.distinct
      · intro label other hmem
        rcases hold label other hmem with rfl | hmem
        · exact insertCommandEntry_ne_nil _ _ _
        · exact (h.of_mem hmem).1
      · intro label other hmem
        rcases hold label other hmem with rfl | hmem
        · exact hinner
        · exact (h.of_mem hmem).2
    · have hold : ∀ label other, CommandMenuEntry.submenu label other ∈ entries ++ [.submenu segment
          (Command.insertCommandEntry [] rest command)] → other = Command.insertCommandEntry [] rest
          command ∨ .submenu label other ∈ entries := by
        intro label other hmem
        simp only [mem_append, mem_singleton, CommandMenuEntry.submenu.injEq] at hmem ⊢
        tauto
      rw [heq]
      refine .intro ?_ ?_ ?_
      · rw [filterMap_append]
        exact h.distinct.append (nodup_singleton _) (by simpa [submenuLabel] using hnew)
      · intro label other hmem
        rcases hold label other hmem with rfl | hmem
        · exact insertCommandEntry_ne_nil _ _ _
        · exact (h.of_mem hmem).1
      · intro label other hmem
        rcases hold label other hmem with rfl | hmem
        · exact ih .nil
        · exact (h.of_mem hmem).2

theorem walkEntries_insertCommandEntry (entries : List CommandMenuEntry) (path : List String)
    (command : CommandMenuCommand) :
    (walkEntries (insertCommandEntry entries path command)).Perm
      (walkEntries entries ++ [(path, command)]) := by
  induction path generalizing entries with
  | nil =>
    rw [insertCommandEntry, walkEntries_append, walkEntries, walkEntries, CommandMenuEntry.walk,
      append_nil]
  | cons segment rest ih =>
    rcases insertCommandEntry_cons entries segment rest command with
      ⟨before, inner, after, rfl, heq⟩ | ⟨_, heq⟩
    · rw [heq, walkEntries_append, walkEntries_append, walkEntries, walkEntries,
        append_assoc, append_assoc]
      apply List.Perm.append_left
      have hinner := (ih inner).map fun item => (segment :: item.1, item.2)
      rw [map_append] at hinner
      refine (hinner.append_right _).trans ?_
      rw [append_assoc]
      exact List.Perm.append_left _ perm_append_comm
    · rw [heq, walkEntries_append, walkEntries, walkEntries, append_nil]
      apply List.Perm.append_left
      exact (ih []).map fun item => (segment :: item.1, item.2)

/-! The commands at a path. -/

theorem commandsAt_append (first second : List (List String × CommandMenuCommand)) :
    commandsAt path (first ++ second) = commandsAt path first ++ commandsAt path second := by
  rw [commandsAt, commandsAt, commandsAt, filter_append, map_append]

theorem commandsAt_nil_under (items : List (List String × CommandMenuCommand)) :
    commandsAt [] (under label items) = [] := by
  rw [commandsAt, map_eq_nil_iff, filter_eq_nil_iff]
  intro item hitem
  obtain ⟨other, _, rfl⟩ := mem_map.mp hitem
  simp

theorem commandsAt_cons_under (segment : String) (path : List String) (label : String)
    (items : List (List String × CommandMenuCommand)) :
    commandsAt (segment :: path) (under label items) =
      if label = segment then commandsAt path items else [] := by
  rw [commandsAt, commandsAt, under, filter_map]
  by_cases heq : label = segment
  · simp [Function.comp_def, heq]
  · simp [Function.comp_def, heq]

/-- What is met under a label follows what is met inside. -/
theorem commandsAt_under_congr {first second : List (List String × CommandMenuCommand)}
    (h : ∀ path, commandsAt path first = commandsAt path second) (label : String)
    (path : List String) : commandsAt path (under label first) = commandsAt path
    (under label second) := by
  cases path with
  | nil => rw [commandsAt_nil_under, commandsAt_nil_under]
  | cons segment path => rw [commandsAt_cons_under, commandsAt_cons_under, h]

/-- Nothing is met under a label that no submenu has. -/
theorem commandsAt_cons_of_not_mem {segment : String}
    (h : segment ∉ entries.filterMap submenuLabel) (path : List String) :
    commandsAt (segment :: path) (walkEntries entries) = [] := by
  induction entries with
  | nil => rfl
  | cons entry rest ih =>
    rw [walkEntries, commandsAt_append]
    cases entry with
    | command command =>
      rw [ih (by simpa [submenuLabel] using h), CommandMenuEntry.walk]
      simp [commandsAt]
    | submenu label inner =>
      have hlabels : segment ∉ label :: rest.filterMap submenuLabel := h
      rw [mem_cons, not_or] at hlabels
      rw [ih hlabels.2, CommandMenuEntry.walk, commandsAt_cons_under,
        if_neg (Ne.symm hlabels.1), append_nil]

/-- What stands under a label and what other submenus hold do not share a path. -/
theorem commandsAt_under_comm {label : String}
    (h : label ∉ entries.filterMap submenuLabel) (path : List String)
    (items : List (List String × CommandMenuCommand)) :
    commandsAt path (under label items) ++ commandsAt path (walkEntries entries) =
      commandsAt path (walkEntries entries) ++ commandsAt path (under label items) := by
  cases path with
  | nil => rw [commandsAt_nil_under, nil_append, append_nil]
  | cons segment path =>
    rw [commandsAt_cons_under]
    by_cases heq : label = segment
    · rw [commandsAt_cons_of_not_mem (heq ▸ h), nil_append, append_nil]
    · rw [if_neg heq, nil_append, append_nil]

/-- The inserted command comes last among the commands at its path; other paths keep theirs. -/
theorem commandsAt_insertCommandEntry (h : WellFormed entries)
    (path other : List String) (command : CommandMenuCommand) :
    commandsAt other (walkEntries (insertCommandEntry entries path command)) =
      commandsAt other (walkEntries entries ++ [(path, command)]) := by
  induction path generalizing entries other with
  | nil =>
    rw [insertCommandEntry, walkEntries_append, walkEntries, walkEntries, CommandMenuEntry.walk,
      append_nil]
  | cons segment rest ih =>
    rcases insertCommandEntry_cons entries segment rest command with
      ⟨before, inner, after, rfl, heq⟩ | ⟨hnew, heq⟩
    · have hlast : segment ∉ after.filterMap submenuLabel := by
        have hdistinct := h.distinct
        rw [filterMap_append, nodup_append] at hdistinct
        exact (nodup_cons.mp hdistinct.2.1).1
      have hinner := commandsAt_under_congr
        (fun path => ih (h.of_mem (mem_append_right _ mem_cons_self)).2 path) segment other
      have hsplit : under segment (walkEntries inner ++ [(rest, command)]) =
          under segment (walkEntries inner) ++ under segment [(rest, command)] := by
        rw [under, map_append]
        rfl
      have hmoved := commandsAt_under_comm hlast other [(rest, command)]
      rw [heq]
      simp only [walkEntries_append, walkEntries, CommandMenuEntry.walk, commandsAt_append, hinner,
        hsplit, append_assoc, hmoved]
      rfl
    · have hinner := commandsAt_under_congr (fun path => ih .nil path) segment other
      rw [heq, walkEntries_append, walkEntries, walkEntries, CommandMenuEntry.walk,
        append_nil, commandsAt_append, commandsAt_append, hinner]
      rfl

/-- The walk of the entries that a list of descriptors is inserted into. -/
theorem foldl_insertCommandEntry (descriptors : List CommandDescriptor) (h : WellFormed entries) :
    let inserted := descriptors.foldl (fun entries descriptor =>
      insertCommandEntry entries descriptor.menuPath (.fromDescriptor descriptor)) entries
    let listed := walkEntries entries ++ descriptors.map fun descriptor =>
      (descriptor.menuPath, CommandMenuCommand.fromDescriptor descriptor)
    WellFormed inserted ∧ (walkEntries inserted).Perm listed ∧
      ∀ path, commandsAt path (walkEntries inserted) = commandsAt path listed := by
  induction descriptors generalizing entries with
  | nil => simpa using h
  | cons descriptor rest ih =>
    have hnext := h.insertCommandEntry descriptor.menuPath (.fromDescriptor descriptor)
    obtain ⟨hwell, hperm, hpaths⟩ := ih hnext
    refine ⟨hwell, ?_, ?_⟩
    · refine hperm.trans ?_
      rw [map_cons, ← singleton_append, ← append_assoc]
      exact (walkEntries_insertCommandEntry _ _ _).append_right _
    · intro path
      rw [foldl_cons, hpaths, commandsAt_append, commandsAt_insertCommandEntry h,
        ← commandsAt_append, append_assoc]
      rfl

/-- The walk of the menu tree meets every command of the snapshot as often as the snapshot has
it, at its menu path, and the commands of one path in the snapshot's order. -/
theorem CommandMenuTree.fromRegistrySnapshot_faithful (snapshot : CommandRegistrySnapshot) :
    let tree := CommandMenuTree.fromRegistrySnapshot snapshot
    let listed := snapshot.descriptors.map fun descriptor =>
      (descriptor.menuPath, CommandMenuCommand.fromDescriptor descriptor)
    WellFormed tree.entries ∧ (walkEntries tree.entries).Perm listed ∧
      ∀ path, commandsAt path (walkEntries tree.entries) = commandsAt path listed := by
  have h := foldl_insertCommandEntry snapshot.descriptors WellFormed.nil
  exact h

end OpenGpui.Command
