/-
Tab groups.  The stops of a group are visited one after the other exactly when no other
group of the same path of tab indices lies among them.
-/
import OpenGpui.Focus.TabCycle

namespace OpenGpui.Focus

open List TabStopEntry TabStopMap Lex

variable {Validity : Type}

/-- The handle was inserted between the begin and the end of the group, which is given by
the groups that were open within it. -/
def InsertedIn (operations : List (TabStopOperation Validity)) (group : List (Nat × Int))
    (stop : FocusHandle) : Prop :=
  ∃ entry ∈ entries [] 0 operations, entry.focusHandle = stop ∧ group <+: entry.groups

instance (operations : List (TabStopOperation Validity)) (group : List (Nat × Int))
    (stop : FocusHandle) : Decidable (InsertedIn operations group stop) :=
  inferInstanceAs (Decidable (∃ entry ∈ entries [] 0 operations,
    entry.focusHandle = stop ∧ group <+: entry.groups))

/-- Between two stops of a group no other stop is visited. -/
def TraversesAsUnits (isValid : Validity → Bool)
    (operations : List (TabStopOperation Validity)) : Prop :=
  ∀ group : List (Nat × Int), group ≠ [] →
    ∀ i j k, i ≤ j → j ≤ k → k < (stops isValid (entries [] 0 operations)).length →
      ∀ first between last, (after operations).visited isValid i = some first →
        (after operations).visited isValid j = some between →
        (after operations).visited isValid k = some last →
        InsertedIn operations group first → InsertedIn operations group last →
        InsertedIn operations group between

/-- Of two groups with the same path the active stops of one all come before those of the
other, by path and by insertion. -/
def GroupsApart (isValid : Validity → Bool) (operations : List (TabStopOperation Validity)) :
    Prop :=
  ∀ one two : List (Nat × Int), one ≠ [] → one ≠ two → one.map Prod.snd = two.map Prod.snd →
    (∀ a ∈ entries [] 0 operations, ∀ b ∈ entries [] 0 operations,
      a.node.isActiveStop isValid = true → b.node.isActiveStop isValid = true →
        one <+: a.groups → two <+: b.groups → a.key < b.key) ∨
    (∀ a ∈ entries [] 0 operations, ∀ b ∈ entries [] 0 operations,
      a.node.isActiveStop isValid = true → b.node.isActiveStop isValid = true →
        one <+: a.groups → two <+: b.groups → b.key < a.key)

theorem prefix_of_between {path early late other : List Int}
    (hearly : ¬other < path ++ early) (hlate : ¬path ++ late < other) : path <+: other := by
  induction path generalizing other with
  | nil => exact nil_prefix
  | cons index path ih =>
    cases other with
    | nil => exact absurd nil hearly
    | cons head other =>
      obtain rfl : index = head :=
        le_antisymm (not_lt.mp fun h => hearly (rel h)) (not_lt.mp fun h => hlate (rel h))
      refine cons_prefix_cons.mpr ⟨rfl, ih ?_ ?_⟩
      · exact fun h => hearly (cons h)
      · exact fun h => hlate (cons h)

theorem entries_path {groups : List (Nat × Int)} {index : Nat}
    {operations : List (TabStopOperation Validity)} :
    ∀ entry ∈ entries groups index operations,
      ∃ tabIndex, entry.node.path = entry.groups.map Prod.snd ++ [tabIndex] := by
  induction operations generalizing groups index with
  | nil => exact nofun
  | cons operation operations ih =>
    cases operation with
    | insert focusHandle validity => exact forall_mem_cons.mpr ⟨⟨_, rfl⟩, ih⟩
    | group tabIndex => exact ih
    | groupEnd => exact ih

/-- A stop that comes between two of a group lies in a group with the same path. -/
theorem exists_group_of_between {operations : List (TabStopOperation Validity)}
    {group : List (Nat × Int)} {first between last : TabStopEntry Validity}
    (hfirst : first ∈ entries [] 0 operations) (hbetween : between ∈ entries [] 0 operations)
    (hlast : last ∈ entries [] 0 operations) (hleft : first.key ≤ between.key)
    (hright : between.key ≤ last.key) (hopens : group <+: first.groups)
    (hcloses : group <+: last.groups) :
    ∃ other, other.map Prod.snd = group.map Prod.snd ∧ other <+: between.groups := by
  have hpath : ∀ {entry}, entry ∈ entries [] 0 operations → group <+: entry.groups →
      ∃ rest : List Int, rest ≠ [] ∧ entry.node.path = group.map Prod.snd ++ rest := by
    rintro entry hentry ⟨inner, hinner⟩
    obtain ⟨tabIndex, hpath⟩ := entries_path entry hentry
    rw [← hinner, map_append, append_assoc] at hpath
    exact ⟨_, append_ne_nil_of_right_ne_nil _ (cons_ne_nil _ _), hpath⟩
  have hle : ∀ {one two : TabStopEntry Validity}, one.key ≤ two.key →
      one.node.path ≤ two.node.path := fun h => (Prod.Lex.monotone_fst _ _ h)
  obtain ⟨early, hearly, hfirst⟩ := hpath hfirst hopens
  obtain ⟨late, _, hlast⟩ := hpath hlast hcloses
  have hearly' := hle hleft
  have hlate' := hle hright
  rw [hfirst] at hearly'
  rw [hlast] at hlate'
  have hprefix := prefix_of_between hearly'.not_gt hlate'.not_gt
  obtain ⟨tabIndex, hbetween⟩ := entries_path between hbetween
  rw [hbetween, prefix_concat_iff] at hprefix
  rcases hprefix with hwhole | hprefix
  · rw [hbetween, ← hwhole] at hearly'
    obtain ⟨index, rest, rfl⟩ := exists_cons_of_ne_nil hearly
    have hless : Lex (· < ·) (group.map Prod.snd ++ []) (group.map Prod.snd ++ index :: rest) :=
      append_left _ nil _
    rw [append_nil] at hless
    exact absurd hless hearly'.not_gt
  · refine ⟨between.groups.take group.length, ?_, take_prefix _ _⟩
    rw [map_take, ← length_map Prod.snd]
    exact (prefix_iff_eq_take.mp hprefix).symm

section

variable {isValid : Validity → Bool} {operations : List (TabStopOperation Validity)}
  (hdistinct : ((operations.filterMap (·.focusHandle)).map FocusHandle.id).Nodup)

include hdistinct

/-- The entries whose handles are visited in turn. -/
theorem exists_actives : ∃ actives : List (TabStopEntry Validity),
    Increasing TabStopEntry.key actives ∧ (∀ entry, entry ∈ actives ↔
        entry ∈ entries [] 0 operations ∧ entry.node.isActiveStop isValid = true) ∧
      (stops isValid (entries [] 0 operations)).length = actives.length ∧
      (∀ i, (hi : i < actives.length) →
        (after operations).visited isValid i = some actives[i].focusHandle) ∧
      ∀ group, ∀ entry ∈ actives, InsertedIn operations group entry.focusHandle ↔
        group <+: entry.groups := by
  refine ⟨(inOrder operations).filter (·.node.isActiveStop isValid), inOrder_increasing.filter _,
    ?_, ?_, ?_, ?_⟩
  · intro entry
    rw [mem_filter, inOrder_perm.mem_iff]
  · rw [stops, length_map]
    exact (inOrder_perm.filter _).length_eq.symm
  · intro i hi
    have hlength : i < (stops isValid (inOrder operations)).length := by
      rw [stops, length_map]
      exact hi
    rw [visited_eq isValid hdistinct, Nat.mod_eq_of_lt hlength, getElem?_eq_getElem hlength]
    simp [stops]
  · intro group entry hentry
    have hmem := inOrder_perm.mem_iff.mp (mem_of_mem_filter hentry)
    constructor
    · rintro ⟨other, hother, hsame, hgroup⟩
      rw [← @map_focusHandle_entries Validity [] 0, map_map] at hdistinct
      rw [← inj_on_of_nodup_map hdistinct hother hmem (congrArg FocusHandle.id hsame)]
      exact hgroup
    · exact fun hgroup => ⟨entry, hmem, rfl, hgroup⟩

/-- The groups are traversed as units exactly when those with the same path lie apart. -/
theorem traverses_as_units_iff :
    TraversesAsUnits isValid operations ↔ GroupsApart isValid operations := by
  obtain ⟨actives, hincreasing, hmem, hlength, hvisited, hinside⟩ :=
    @exists_actives Validity isValid operations hdistinct
  have hkey : ∀ {i j} (hi : i < actives.length) (hj : j < actives.length),
      actives[i].key ≤ actives[j].key ↔ i ≤ j := by
    intro i j hi hj
    have hless := pairwise_iff_getElem.mp hincreasing
    constructor
    · intro hle
      by_contra hlt
      exact absurd hle (hless j i hj hi (not_le.mp hlt)).not_ge
    · intro hle
      rcases hle.eq_or_lt with rfl | hlt
      · exact le_rfl
      · exact (hless i j hi hj hlt).le
  constructor
  · intro hunits one two hone hne hsame
    have hlengths := congrArg length hsame
    rw [length_map, length_map] at hlengths
    have hclash : ∀ entry : TabStopEntry Validity,
        one <+: entry.groups → ¬two <+: entry.groups := by
      intro entry hopens hcloses
      exact hne ((prefix_of_prefix_length_le hopens hcloses hlengths.le).eq_of_length hlengths)
    have hbetween : ∀ group : List (Nat × Int), group ≠ [] → ∀ first ∈ actives, ∀ between ∈ actives,
        ∀ last ∈ actives, first.key ≤ between.key → between.key ≤ last.key → group <+: first.groups
        → group <+: last.groups → group <+: between.groups := by
      intro group hgroup first hfirst between hbetween last hlast hleft hright hopens hcloses
      rw [← hinside group _ hfirst] at hopens
      rw [← hinside group _ hlast] at hcloses
      rw [← hinside group _ hbetween]
      obtain ⟨i, hi, rfl⟩ := getElem_of_mem hfirst
      obtain ⟨j, hj, rfl⟩ := getElem_of_mem hbetween
      obtain ⟨k, hk, rfl⟩ := getElem_of_mem hlast
      rw [hkey] at hleft hright
      exact hunits group hgroup i j k hleft hright (hlength ▸ hk) _ _ _ (hvisited i hi)
        (hvisited j hj) (hvisited k hk) hopens hcloses
    by_contra hnot
    push Not at hnot
    obtain ⟨⟨a, ha, b, hb, haStop, hbStop, haOne, hbTwo, hba⟩,
      a', ha', b', hb', haStop', hbStop', haOne', hbTwo', hab'⟩ := hnot
    have haMem := (hmem a).mpr ⟨ha, haStop⟩
    have hbMem := (hmem b).mpr ⟨hb, hbStop⟩
    have haMem' := (hmem a').mpr ⟨ha', haStop'⟩
    have hbMem' := (hmem b').mpr ⟨hb', hbStop'⟩
    rcases le_total a'.key b.key with hle | hle
    · exact hclash b (hbetween one hone a' haMem' b hbMem a haMem hle hba haOne' haOne) hbTwo
    · refine hclash a' haOne' (hbetween two ?_ b hbMem a' haMem' b' hbMem' hle hab' hbTwo hbTwo')
      rintro rfl
      exact hone (length_eq_zero_iff.mp hlengths)
  · intro hapart group hgroup i j k hij hjk hk first between last hfirst hbetween hlast
    rw [hlength] at hk
    have hj := hjk.trans_lt hk
    have hi := hij.trans_lt hj
    rw [hvisited i hi, Option.some.injEq] at hfirst
    rw [hvisited j hj, Option.some.injEq] at hbetween
    rw [hvisited k hk, Option.some.injEq] at hlast
    subst hfirst hbetween hlast
    rw [hinside group _ (getElem_mem hi), hinside group _ (getElem_mem hk),
      hinside group _ (getElem_mem hj)]
    intro hopens hcloses
    obtain ⟨hfirst, hfirstStop⟩ := (hmem _).mp (getElem_mem hi)
    obtain ⟨hbetween, hbetweenStop⟩ := (hmem _).mp (getElem_mem hj)
    obtain ⟨hlast, hlastStop⟩ := (hmem _).mp (getElem_mem hk)
    have hleft := (hkey hi hj).mpr hij
    have hright := (hkey hj hk).mpr hjk
    obtain ⟨other, hsame, hother⟩ :=
      exists_group_of_between hfirst hbetween hlast hleft hright hopens hcloses
    by_contra hout
    have hne : group ≠ other := by
      rintro rfl
      exact hout hother
    rcases hapart group other hgroup hne hsame.symm with hless | hless
    · exact absurd (hless _ hlast _ hbetween hlastStop hbetweenStop hcloses hother) hright.not_gt
    · exact absurd (hless _ hfirst _ hbetween hfirstStop hbetweenStop hopens hother) hleft.not_gt

end

/-- Two groups of one index, of which the first has a stop before and one behind the stop
of the second. -/
def siblings : List (TabStopOperation Unit) :=
  [.group 0, .insert ⟨1, 1, true⟩ none, .insert ⟨2, 0, true⟩ none, .groupEnd,
    .group 0, .insert ⟨3, 0, true⟩ none, .groupEnd]

theorem traverses_as_units_iff_siblings :
    TraversesAsUnits (fun _ => true) siblings ↔ GroupsApart (fun _ => true) siblings :=
  traverses_as_units_iff (by decide)

theorem siblings_are_not_units : ¬TraversesAsUnits (fun _ => true) siblings := by
  intro h
  have hvisited : (after siblings).visited (fun _ => true) 0 = some ⟨2, 0, true⟩ ∧
      (after siblings).visited (fun _ => true) 1 = some ⟨3, 0, true⟩ ∧
      (after siblings).visited (fun _ => true) 2 = some ⟨1, 1, true⟩ := by decide
  obtain ⟨hfirst, hbetween, hlast⟩ := hvisited
  have hinserted := h [(0, 0)] (by decide) 0 1 2 (by decide) (by decide) (by decide) _ _ _ hfirst
    hbetween hlast (by decide) (by decide)
  exact absurd hinserted (by decide)

end OpenGpui.Focus
