/-
Traversals go round.  Repeated calls of `next` visit the active stops in order, `prev`
undoes `next`, and the predicate variants find the first stop of a kind on the way.
-/
import OpenGpui.Focus.TabStops

namespace OpenGpui.Focus

open List TabStopEntry Nat

variable {Validity : Type}

namespace TabStopEntry

/-- The entries after the focused one and then those up to it. -/
def following (focusedId : Option Nat) (entries : List (TabStopEntry Validity)) :
    List (TabStopEntry Validity) :=
  match focusedId.bind fun id => entries.findIdx? (·.focusHandle.id == id) with
  | none => entries
  | some index => entries.rotate (index + 1)

variable {groups : List (Nat × Int)} {index : Nat} {operations : List (TabStopOperation Validity)}

/-- The entries are the inserted handles, as they were inserted. -/
theorem map_focusHandle_entries : (entries groups index operations).map (·.focusHandle) =
    operations.filterMap (·.focusHandle) := by
  induction operations generalizing groups index with
  | nil => rfl
  | cons operation operations ih =>
    cases operation with
    | insert focusHandle validity => rw [entries, map_cons, ih]; rfl
    | group tabIndex | groupEnd => rw [entries, ih]; rfl

/-- Later entries have later indices, so no two keys are equal. -/
theorem entries_index : (∀ entry ∈ entries groups index operations,
      index ≤ entry.node.nodeInsertionIndex) ∧
    (entries groups index operations).Pairwise fun one two => one.key ≠ two.key := by
  induction operations generalizing groups index with
  | nil => exact ⟨nofun, Pairwise.nil⟩
  | cons operation operations ih =>
    have hlater : ∀ groups : List (Nat × Int), ∀ entry ∈ entries groups (index + 1) operations,
          index < entry.node.nodeInsertionIndex := fun groups => (@ih groups (index + 1)).1
    cases operation with
    | insert focusHandle validity =>
      refine ⟨forall_mem_cons.mpr ⟨le_rfl, fun entry hentry => (hlater _ _ hentry).le⟩,
        pairwise_cons.mpr ⟨fun entry hentry hkey => ?_, ih.2⟩⟩
      have hindex := congrArg (fun key => (ofLex key).2) hkey
      exact absurd hindex (hlater _ entry hentry).ne
    | group tabIndex | groupEnd => exact ⟨fun entry hentry => (hlater _ _ hentry).le, ih.2⟩

theorem inOrder_perm : inOrder operations ~ entries [] 0 operations := mergeSort_perm _ _

/-- Sorted entries increase, for no two keys are equal. -/
theorem inOrder_increasing : Increasing TabStopEntry.key (inOrder operations) := by
  have hsorted := @pairwise_mergeSort (TabStopEntry Validity)
    (fun one two => decide (one.key ≤ two.key))
    (fun a b c hab hbc => by
      rw [decide_eq_true_eq] at hab hbc ⊢
      exact hab.trans hbc)
    (fun a b => by
      rw [Bool.or_eq_true, decide_eq_true_eq, decide_eq_true_eq]
      exact le_total a.key b.key)
    (entries ([] : List (Nat × Int)) 0 operations)
  have hdistinct := (inOrder_perm.pairwise_iff (fun hne => Ne.symm hne)).mpr
    (@entries_index Validity [] 0 operations).2
  refine (hsorted.and hdistinct).imp fun {one two} h => ?_
  exact lt_of_le_of_ne (of_decide_eq_true h.1) h.2

variable (isValid : Validity → Bool)

theorem stops_append (one two : List (TabStopEntry Validity)) :
    stops isValid (one ++ two) = stops isValid one ++ stops isValid two := by
  rw [stops, filter_append, map_append]
  rfl

variable {entry : TabStopEntry Validity}

theorem stops_cons_of_pos {isValid : Validity → Bool}
    (hactive : entry.node.isActiveStop isValid = true) (rest : List (TabStopEntry Validity)) :
    stops isValid (entry :: rest) = entry.focusHandle :: stops isValid rest := by
  simp [stops, hactive]

theorem stops_cons_of_neg {isValid : Validity → Bool}
    (hactive : ¬entry.node.isActiveStop isValid = true) (rest : List (TabStopEntry Validity)) :
    stops isValid (entry :: rest) = stops isValid rest := by
  simp [stops, hactive]

theorem head?_stops (entries : List (TabStopEntry Validity)) : (stops isValid entries).head? =
      (entries.find? (·.node.isActiveStop isValid)).map (·.focusHandle) := by
  rw [stops, head?_map, head?_filter]

end TabStopEntry

namespace TabStopMap

variable {state : TabStopMap Validity} {groups : List (Nat × Int)}
  {done : List (TabStopEntry Validity)} {operations : List (TabStopOperation Validity)}

/-- What the map knows of the handles that were inserted. -/
structure Records (state : TabStopMap Validity) (groups : List (Nat × Int))
    (done : List (TabStopEntry Validity)) : Prop where
  path : state.currentPath = groups.map Prod.snd
  increasing : Increasing TabStopNode.key state.order
  mem : ∀ node, node ∈ state.order ↔ ∃ entry ∈ done, entry.node = node
  history : ∀ entry ∈ done, state.insertionHistory[entry.node.nodeInsertionIndex]? =
    some (.insert entry.focusHandle entry.node.validity)
  byId : ∀ id node, state.byId[id]? = some node ↔
    ∃ entry ∈ done, entry.focusHandle.id = id ∧ entry.node = node
  length : done.length ≤ state.insertionHistory.length

section

variable (h : Records state groups done)

include h

theorem Records.index_lt (entry : TabStopEntry Validity) (hentry : entry ∈ done) :
    entry.node.nodeInsertionIndex < state.insertionHistory.length := by
  obtain ⟨hlt, _⟩ := List.getElem?_eq_some_iff.mp (h.history entry hentry)
  exact hlt

/-- A call that inserts nothing is remembered. -/
theorem Records.extend {groups' : List (Nat × Int)}
    {path : List Int} (hpath : path = groups'.map Prod.snd)
    (operation : TabStopOperation Validity) :
    Records { state with
      insertionHistory := state.insertionHistory ++ [operation]
      currentPath := path } groups' done where
  path := hpath
  increasing := h.increasing
  mem := h.mem
  history entry hentry := by
    rw [getElem?_append_left (h.index_lt entry hentry)]
    exact h.history entry hentry
  byId := h.byId
  length := by
    rw [length_append]
    exact h.length.trans (le_add_right _ _)

theorem Records.insertScoped (focusHandle : FocusHandle) (validity : Option Validity)
    (hfresh : ∀ entry ∈ done, entry.focusHandle.id ≠ focusHandle.id) :
    Records (state.insertScoped focusHandle validity) groups
      (done ++ [⟨groups, ⟨groups.map Prod.snd ++ [focusHandle.tabIndex],
        state.insertionHistory.length, focusHandle.tabStop, validity⟩, focusHandle⟩]) := by
  have hlt : ∀ entry ∈ done, entry.node.nodeInsertionIndex < state.insertionHistory.length :=
    h.index_lt
  rw [TabStopMap.insertScoped, length_append, length_singleton, Nat.add_sub_cancel, h.path]
  constructor
  · rfl
  · exact Increasing.overwrite (pairwise_singleton _ _) h.increasing
  · intro node
    rw [mem_overwrite (pairwise_singleton _ _)]
    simp only [mem_singleton, forall_eq, mem_append, or_and_right, exists_or, exists_eq_left, h.mem]
    constructor
    · rintro (rfl | ⟨hold, _⟩)
      · exact .inr rfl
      · exact .inl hold
    · rintro (⟨entry, hentry, rfl⟩ | rfl)
      · refine .inr ⟨⟨entry, hentry, rfl⟩, fun hkey => ?_⟩
        exact (hlt entry hentry).ne' (congrArg (fun key => (ofLex key).2) hkey)
      · exact .inl rfl
  · refine forall_mem_append.mpr ⟨fun entry hentry => ?_, forall_mem_singleton.mpr ?_⟩
    · rw [getElem?_append_left (hlt entry hentry)]
      exact h.history entry hentry
    · rw [getElem?_concat_length]
  · intro id node
    rw [KeyMap.get_insert]
    simp only [mem_append, mem_singleton, or_and_right, exists_or, exists_eq_left]
    by_cases hid : focusHandle.id = id
    · subst hid
      rw [if_pos rfl, Option.some.injEq]
      constructor
      · rintro rfl
        exact .inr ⟨rfl, rfl⟩
      · rintro (⟨entry, hentry, hsame, _⟩ | ⟨_, hnode⟩)
        · exact absurd hsame (hfresh entry hentry)
        · exact hnode
    · rw [if_neg hid, h.byId]
      exact ⟨.inl, fun hor => hor.resolve_right fun hnew => hid hnew.1⟩
  · rw [length_append, length_append]
    exact Nat.add_le_add_right h.length 1

/-- Calls with distinct handles are recorded. -/
theorem Records.perform
    (hids : ((done ++ entries groups state.insertionHistory.length operations).map
      (·.focusHandle.id)).Nodup) :
    ∃ groups', Records (operations.foldl TabStopMap.perform state) groups'
      (done ++ entries groups state.insertionHistory.length operations) := by
  induction operations generalizing state groups done with
  | nil =>
    rw [entries, append_nil]
    exact ⟨groups, h⟩
  | cons operation operations ih =>
    cases operation with
    | insert focusHandle validity =>
      rw [entries, append_cons] at hids ⊢
      have hfresh : ∀ entry ∈ done, entry.focusHandle.id ≠ focusHandle.id := by
        intro entry hentry
        rw [map_append, map_append] at hids
        exact (nodup_append.mp hids.of_append_left).2.2 _ (mem_map_of_mem hentry) _
          (mem_singleton_self _)
      have hnext := h.insertScoped focusHandle validity hfresh
      have hlength : (state.insertScoped focusHandle validity).insertionHistory.length =
          state.insertionHistory.length + 1 := by
        rw [TabStopMap.insertScoped, length_append, length_singleton]
      rw [← hlength] at hids ⊢
      exact ih hnext hids
    | group tabIndex =>
      have hlength : (state.beginGroup tabIndex).insertionHistory.length =
          state.insertionHistory.length + 1 := by
        rw [beginGroup, length_append, length_singleton]
      rw [entries, ← hlength] at hids ⊢
      refine ih (h.extend ?_ (.group tabIndex)) hids
      rw [h.path, map_append]
      rfl
    | groupEnd =>
      have hlength : state.endGroup.insertionHistory.length =
          state.insertionHistory.length + 1 := by
        rw [endGroup, length_append, length_singleton]
      rw [entries, ← hlength] at hids ⊢
      refine ih (h.extend ?_ .groupEnd) hids
      rw [h.path, map_dropLast]

end

/-- The inner traversal leads through the entries in this order. -/
structure Guides (isValid : Validity → Bool) (state : TabStopMap Validity)
    (entries : List (TabStopEntry Validity))
    (inner : TabStopNode Validity → Option (TabStopNode Validity)) : Prop where
  leads : ∀ before entry later, entries = before ++ entry :: later →
    inner entry.node = (later.find? (·.node.isActiveStop isValid)).map (·.node)
  handle : ∀ entry ∈ entries, state.focusHandleForOrder entry.node = some entry.focusHandle
  byId : ∀ id node, state.byId[id]? = some node ↔
    ∃ entry ∈ entries, entry.focusHandle.id = id ∧ entry.node = node
  ids : (entries.map (·.focusHandle.id)).Nodup
  length : entries.length ≤ state.insertionHistory.length

namespace Guides

variable {isValid : Validity → Bool} {entries before later : List (TabStopEntry Validity)}
  {entry : TabStopEntry Validity}
  {inner : TabStopNode Validity → Option (TabStopNode Validity)}

/-- From a focused stop the walk goes on behind it. -/
theorem following_eq (h : Guides isValid state (before ++ entry :: later) inner) :
    following (some entry.focusHandle.id) (before ++ entry :: later) =
      later ++ (before ++ [entry]) := by
  have hfirst : (before ++ entry :: later).findIdx? (·.focusHandle.id == entry.focusHandle.id) =
      some before.length := by
    have hbefore : before.findIdx? (·.focusHandle.id == entry.focusHandle.id) = none := by
      rw [findIdx?_eq_none_iff]
      intro other hother
      rw [beq_eq_false_iff_ne]
      have hids := h.ids
      rw [map_append, nodup_append] at hids
      exact hids.2.2 _ (mem_map_of_mem hother) _ (mem_map_of_mem mem_cons_self)
    rw [findIdx?_append, hbefore, findIdx?_cons, beq_self_eq_true, if_pos rfl, Option.none_or,
      Option.map_some, Nat.zero_add]
  rw [following, Option.bind_some, hfirst, append_cons]
  have hrotate := rotate_append_length_eq (before ++ [entry]) later
  rw [length_append, length_singleton] at hrotate
  exact hrotate

theorem following_of_not_mem {id : Nat} (hid : ∀ entry ∈ entries, entry.focusHandle.id ≠ id) :
    following (some id) entries = entries := by
  have hnone : entries.findIdx? (·.focusHandle.id == id) = none := by
    rw [findIdx?_eq_none_iff]
    exact fun other hother => beq_eq_false_iff_ne.mpr (hid other hother)
  rw [following, Option.bind_some, hnone]

section

variable (h : Guides isValid state entries inner)

include h

theorem fromEnd_eq :
    state.fromEnd isValid inner (entries.head?.map (·.node)) = (stops isValid entries).head? := by
  cases entries with
  | nil => rfl
  | cons entry rest =>
    rw [head?_cons, Option.map_some, fromEnd, Option.bind_some, head?_stops, find?_cons]
    by_cases hactive : entry.node.isActiveStop isValid = true
    · rw [if_pos hactive, hactive, h.handle entry mem_cons_self]
      rfl
    · rw [if_neg hactive, Bool.eq_false_iff.mpr hactive, h.leads [] entry rest rfl]
      cases hfind : rest.find? (·.node.isActiveStop isValid) with
      | none => rfl
      | some found =>
        exact h.handle found (mem_cons_of_mem _ (mem_of_find?_eq_some hfind))

variable (focusedId : Option Nat)

/-- A call leads to the first active stop of those that follow. -/
theorem fromFocused_eq : state.fromFocused isValid inner (entries.head?.map (·.node)) focusedId =
      (stops isValid (following focusedId entries)).head? := by
  cases focusedId with
  | none => exact h.fromEnd_eq
  | some id =>
    rw [fromFocused, Option.bind_some]
    cases hget : state.byId[id]? with
    | none =>
      rw [following_of_not_mem]
      · exact h.fromEnd_eq
      · rintro entry hentry rfl
        rw [(h.byId _ _).mpr ⟨entry, hentry, rfl, rfl⟩] at hget
        cases hget
    | some node =>
      obtain ⟨entry, hentry, rfl, rfl⟩ := (h.byId _ _).mp hget
      obtain ⟨before, later, rfl⟩ := append_of_mem hentry
      dsimp only
      rw [h.following_eq, h.leads before entry later rfl, stops_append,
        @head?_append _ _ (stops isValid later), head?_stops isValid later]
      cases hfind : later.find? (·.node.isActiveStop isValid) with
      | some found =>
        exact h.handle found (mem_append_right _ (mem_cons_of_mem _ (mem_of_find?_eq_some hfind)))
      | none =>
        have hlater : stops isValid later = [] := by
          rw [← head?_eq_none_iff, head?_stops, hfind]
          rfl
        refine h.fromEnd_eq.trans ?_
        rw [append_cons, stops_append, hlater, append_nil]
        rfl

/-- The stops that follow are all stops, from some place on. -/
theorem stops_following : ∃ start,
      stops isValid (following focusedId entries) = (stops isValid entries).rotate start := by
  cases focusedId with
  | none => exact ⟨0, (rotate_zero _).symm⟩
  | some id =>
    by_cases hid : ∀ entry ∈ entries, entry.focusHandle.id ≠ id
    · rw [following_of_not_mem hid]
      exact ⟨0, (rotate_zero _).symm⟩
    · push Not at hid
      obtain ⟨entry, hentry, rfl⟩ := hid
      obtain ⟨before, later, rfl⟩ := append_of_mem hentry
      refine ⟨(stops isValid (before ++ [entry])).length, ?_⟩
      rw [h.following_eq, stops_append _ later, append_cons before entry later,
        stops_append _ (before ++ [entry]), rotate_append_length_eq]

end

theorem exists_split {i : Nat} (hi : i < (stops isValid entries).length) :
    ∃ before entry later, entries = before ++ entry :: later ∧ (stops isValid before).length = i ∧
      entry.node.isActiveStop isValid = true := by
  induction entries generalizing i with
  | nil => exact absurd hi (not_lt_zero i)
  | cons entry rest ih =>
    by_cases hactive : entry.node.isActiveStop isValid = true
    · cases i with
      | zero => exact ⟨[], entry, rest, rfl, rfl, hactive⟩
      | succ i =>
        rw [stops_cons_of_pos hactive, length_cons] at hi
        obtain ⟨before, found, later, rfl, hbefore, hfound⟩ := ih (lt_of_succ_lt_succ hi)
        refine ⟨entry :: before, found, later, rfl, ?_, hfound⟩
        rw [stops_cons_of_pos hactive, length_cons, hbefore]
    · rw [stops_cons_of_neg hactive] at hi
      obtain ⟨before, found, later, rfl, hbefore, hfound⟩ := ih hi
      refine ⟨entry :: before, found, later, rfl, ?_, hfound⟩
      rw [stops_cons_of_neg hactive, hbefore]

theorem goesRound (h : Guides isValid state entries inner) :
    GoesRound (stops isValid entries) fun focused =>
      state.fromFocused isValid inner (entries.head?.map (·.node)) (some focused.id) := by
  intro i hi
  obtain ⟨before, entry, later, rfl, rfl, hactive⟩ := exists_split hi
  have hsingle : stops isValid [entry] = [entry.focusHandle] := stops_cons_of_pos hactive []
  have hring : stops isValid (before ++ entry :: later) =
      stops isValid before ++ [entry.focusHandle] ++ stops isValid later := by
    rw [append_cons, stops_append, stops_append, hsingle]
  have hrotate := head?_rotate_mod (stops isValid (before ++ entry :: later))
    ((stops isValid before).length + 1)
  have hturn := rotate_append_length_eq (stops isValid before ++ [entry.focusHandle])
    (stops isValid later)
  rw [length_append, length_singleton, ← hring] at hturn
  have hget : (stops isValid (before ++ entry :: later))[(stops isValid before).length] =
      entry.focusHandle := by
    simp [hring]
  dsimp only
  rw [hget, h.fromFocused_eq, h.following_eq, stops_append, stops_append, hsingle, ← hrotate, hturn]

theorem firstWhere_eq (advance : Option Nat → Option FocusHandle) (predicate : FocusHandle → Bool)
    (fuel : Nat) (current : Option Nat) :
    firstWhere advance predicate fuel current =
      firstAlong (fun focused => advance (some focused.id)) predicate fuel (advance current) := by
  induction fuel generalizing current with
  | zero => rfl
  | succ fuel ih =>
    rw [firstWhere]
    cases advance current with
    | none => rfl
    | some candidate =>
      dsimp only
      rw [firstAlong, ih]

/-- The first stop of a kind is found among those that follow. -/
theorem firstWhere_following (h : Guides isValid state entries inner)
    (predicate : FocusHandle → Bool) (focusedId : Option Nat) :
    firstWhere (state.fromFocused isValid inner (entries.head?.map (·.node))) predicate
      state.insertionHistory.length focusedId =
        (stops isValid (following focusedId entries)).find? predicate := by
  obtain ⟨start, hstart⟩ := h.stops_following focusedId
  have hlength : (stops isValid entries).length ≤ state.insertionHistory.length := by
    rw [stops, length_map]
    exact (length_filter_le _ _).trans h.length
  rw [firstWhere_eq, h.fromFocused_eq, hstart, head?_rotate_mod,
    h.goesRound.firstAlong_eq predicate hlength]

end Guides

theorem records_after
    (hdistinct : ((operations.filterMap (·.focusHandle)).map FocusHandle.id).Nodup) :
    ∃ groups, Records (after operations) groups (entries [] 0 operations) := by
  have hempty : Records (default : TabStopMap Validity) [] [] :=
    ⟨rfl, Pairwise.nil, by simp [default], nofun, by simp [default], le_rfl⟩
  rw [← @map_focusHandle_entries Validity [] 0, map_map] at hdistinct
  exact hempty.perform hdistinct

/-- The order of the map is that of the sorted entries. -/
theorem order_after {groups : List (Nat × Int)} {state : TabStopMap Validity}
    (h : Records state groups (entries [] 0 operations)) :
    state.order = (inOrder operations).map (·.node) := by
  have hincreasing : Increasing TabStopNode.key ((inOrder operations).map (·.node)) :=
    pairwise_map.mpr inOrder_increasing
  have hperm : state.order ~ (inOrder operations).map (·.node) := by
    rw [perm_ext_iff_of_nodup]
    · intro node
      rw [h.mem, mem_map]
      simp only [inOrder_perm.mem_iff]
    · exact h.increasing.imp fun hlt heq => hlt.ne (congrArg _ heq)
    · exact hincreasing.imp fun hlt heq => hlt.ne (congrArg _ heq)
  exact hperm.eq_of_pairwise (fun one two _ _ hlt hgt => absurd hgt hlt.asymm) h.increasing
    hincreasing

section After

variable (isValid : Validity → Bool)
  (hdistinct : ((operations.filterMap (·.focusHandle)).map FocusHandle.id).Nodup)

include hdistinct

theorem guides_nextInner : Guides isValid (after operations) (inOrder operations)
      ((after operations).nextInner isValid) := by
  obtain ⟨groups, h⟩ := records_after hdistinct
  constructor
  · intro before entry later hsplit
    have hincreasing := @inOrder_increasing Validity operations
    rw [hsplit] at hincreasing
    obtain ⟨_, hlater, hbefore⟩ := pairwise_append.mp hincreasing
    have hless : ∀ node ∈ before.map (·.node), decide (node.key < entry.node.key) = true := by
      intro node hnode
      obtain ⟨other, hother, rfl⟩ := mem_map.mp hnode
      exact decide_eq_true (hbefore other hother entry mem_cons_self)
    rw [nextInner, order_after h, hsplit, map_append, dropWhile_append_of_pos hless, map_cons,
      dropWhile_cons_of_neg (by simp), drop_one, tail_cons, find?_map]
    rfl
  · intro entry hentry
    rw [focusHandleForOrder, h.history entry (inOrder_perm.mem_iff.mp hentry)]
    rfl
  · intro id node
    simp only [h.byId, inOrder_perm.mem_iff]
  · rw [← @map_focusHandle_entries Validity [] 0, map_map] at hdistinct
    exact ((inOrder_perm.map _).nodup_iff).mpr hdistinct
  · rw [inOrder_perm.length_eq]
    exact h.length

theorem guides_prevInner : Guides isValid (after operations) (inOrder operations).reverse
      ((after operations).prevInner isValid) := by
  obtain ⟨groups, h⟩ := records_after hdistinct
  have hnext := guides_nextInner isValid hdistinct
  constructor
  · intro later entry before hsplit
    rw [reverse_eq_iff, reverse_append, reverse_cons, append_assoc] at hsplit
    have hincreasing := @inOrder_increasing Validity operations
    rw [hsplit] at hincreasing
    obtain ⟨_, hlater, hbefore⟩ := pairwise_append.mp hincreasing
    have hless : ∀ node ∈ before.reverse.map (·.node),
        decide (node.key < entry.node.key) = true := by
      intro node hnode
      obtain ⟨other, hother, rfl⟩ := mem_map.mp hnode
      exact decide_eq_true (hbefore other hother entry mem_cons_self)
    rw [prevInner, order_after h, hsplit, map_append, takeWhile_append_of_pos hless,
      singleton_append,
      map_cons, takeWhile_cons_of_neg (by simp), append_nil, map_reverse, reverse_reverse,
      find?_map]
    rfl
  · exact fun entry hentry => hnext.handle entry (mem_reverse.mp hentry)
  · simp only [mem_reverse]
    exact hnext.byId
  · rw [map_reverse, nodup_reverse]
    exact hnext.ids
  · rw [length_reverse]
    exact hnext.length

theorem next_eq : (after operations).next isValid = (after operations).fromFocused isValid
    ((after operations).nextInner isValid) ((inOrder operations).head?.map (·.node)) := by
  obtain ⟨groups, h⟩ := records_after hdistinct
  rw [next, order_after h, head?_map]

theorem prev_eq : (after operations).prev isValid = (after operations).fromFocused isValid
    ((after operations).prevInner isValid) ((inOrder operations).reverse.head?.map (·.node)) := by
  obtain ⟨groups, h⟩ := records_after hdistinct
  rw [prev, order_after h, getLast?_map, head?_reverse]

/-- Repeated calls go round the active stops. -/
theorem visited_eq (count : Nat) : (after operations).visited isValid count =
    (stops isValid (inOrder operations))[count % (stops isValid (inOrder operations)).length]? := by
  have hguides := guides_nextInner isValid hdistinct
  rw [← hguides.goesRound.walk_eq]
  induction count with
  | zero =>
    rw [visited, next_eq isValid hdistinct, hguides.fromFocused_eq]
    rfl
  | succ count ih =>
    rw [visited, walk, ih, next_eq isValid hdistinct]

end After

/-- The traversals go round the active stops, which lie in the order of their path of tab
indices and of their insertion. -/
structure GoesInOrder (isValid : Validity → Bool)
    (operations : List (TabStopOperation Validity)) : Prop where
  all : inOrder operations ~ entries [] 0 operations
  increasing : Increasing TabStopEntry.key (inOrder operations)
  once : (stops isValid (inOrder operations)).Nodup
  visits : ∀ count, (after operations).visited isValid count =
    (stops isValid (inOrder operations))[count % (stops isValid (inOrder operations)).length]?
  inverse : ∀ one ∈ stops isValid (inOrder operations), ∀ two ∈ stops isValid (inOrder operations),
      (after operations).next isValid (some one.id) = some two ↔
        (after operations).prev isValid (some two.id) = some one
  nextWhere : ∀ focusedId predicate, (after operations).nextWhere isValid focusedId predicate =
      (stops isValid (following focusedId (inOrder operations))).find? predicate
  prevWhere : ∀ focusedId predicate, (after operations).prevWhere isValid focusedId predicate =
      (stops isValid (following focusedId (inOrder operations).reverse)).find? predicate
  nowhere : ∀ focusedId predicate,
    ((after operations).nextWhere isValid focusedId predicate = none ↔
      ∀ stop ∈ stops isValid (inOrder operations), predicate stop = false) ∧
    ((after operations).prevWhere isValid focusedId predicate = none ↔
      ∀ stop ∈ stops isValid (inOrder operations), predicate stop = false)

theorem stops_reverse (isValid : Validity → Bool) (entries : List (TabStopEntry Validity)) :
    stops isValid entries.reverse = (stops isValid entries).reverse := by
  rw [stops, filter_reverse, map_reverse]
  rfl

theorem tab_traversal_goes_round (isValid : Validity → Bool)
    (operations : List (TabStopOperation Validity))
    (hdistinct : ((operations.filterMap (·.focusHandle)).map FocusHandle.id).Nodup) :
    GoesInOrder isValid operations := by
  have hnext := guides_nextInner isValid hdistinct
  have hprev := guides_prevInner isValid hdistinct
  have hround := hprev.goesRound
  rw [stops_reverse, ← prev_eq isValid hdistinct] at hround
  have hforward := hnext.goesRound
  rw [← next_eq isValid hdistinct] at hforward
  have honce : (stops isValid (inOrder operations)).Nodup := by
    apply Nodup.of_map FocusHandle.id
    rw [stops, map_map]
    exact hnext.ids.sublist (filter_sublist.map _)
  have hnextWhere : ∀ focusedId predicate, (after operations).nextWhere isValid focusedId predicate
      = (stops isValid (following focusedId (inOrder operations))).find? predicate := by
    intro focusedId predicate
    rw [nextWhere, next_eq isValid hdistinct]
    exact hnext.firstWhere_following predicate focusedId
  have hprevWhere : ∀ focusedId predicate, (after operations).prevWhere isValid focusedId predicate
      = (stops isValid (following focusedId (inOrder operations).reverse)).find? predicate := by
    intro focusedId predicate
    rw [prevWhere, prev_eq isValid hdistinct]
    exact hprev.firstWhere_following predicate focusedId
  refine ⟨inOrder_perm, inOrder_increasing, honce, visited_eq isValid hdistinct, ?_, hnextWhere,
    hprevWhere, ?_⟩
  · exact fun one hone two htwo => hforward.step_eq_some_iff hround honce hone htwo
  · intro focusedId predicate
    obtain ⟨start, hstart⟩ := hnext.stops_following focusedId
    obtain ⟨last, hlast⟩ := hprev.stops_following focusedId
    rw [stops_reverse] at hlast
    rw [hnextWhere, hprevWhere, hstart, hlast]
    simp only [find?_eq_none, mem_rotate, mem_reverse, Bool.not_eq_true, and_self]

/-- A group, a stop of a higher index, one whose geometry is not valid, and a handle that
is no stop. -/
def grouped : List (TabStopOperation Bool) :=
  [.insert ⟨1, 2, true⟩ none, .group 1, .insert ⟨2, 0, true⟩ (some true),
    .insert ⟨3, 0, true⟩ (some false), .insert ⟨4, 1, false⟩ none, .groupEnd]

theorem tab_traversal_goes_round_grouped : GoesInOrder (fun valid => valid) grouped :=
  tab_traversal_goes_round _ grouped (by decide)

end TabStopMap

end OpenGpui.Focus
