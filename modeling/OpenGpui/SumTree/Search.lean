/-
Filtered searches: forward to an item the filter accepts, and backward.  When the filter
accepts every sum with an accepted part, it is the next one.
-/
import OpenGpui.SumTree.Place

namespace OpenGpui.SumTrees

open List Dimension

universe u v w

open SumTree

variable {T : Type u} {S : Type v} {D : Type w} [Summary S] [Item T S] [Dimension D S]

/-- The filter accepts the sum of a part of the items when it accepts one of them. -/
def Faithful (filterNode : S → Bool) (items : List T) : Prop :=
  ∀ part, part <:+: items → ∀ item ∈ part, filterNode (Item.summary item) = true →
    filterNode (sum (part.map Item.summary)) = true

/-- A faithful filter accepts none of the items. -/
def Rejects (filterNode : S → Bool) (part items : List T) : Prop :=
  Faithful filterNode part → ∀ item ∈ items, filterNode (Item.summary item) = false

variable {filterNode : S → Bool}

theorem Faithful.mono {part items : List T} (h : Faithful filterNode items)
    (hpart : part <:+: items) : Faithful filterNode part :=
  fun inner hinner => h inner (hinner.trans hpart)

theorem Rejects.append {part items next crossed : List T}
    (hitems : Rejects filterNode part items) (hover : Rejects filterNode next crossed) :
    Rejects filterNode (part ++ next) (items ++ crossed) := by
  intro hfaithful item hitem
  rcases mem_append.mp hitem with hin | hin
  · exact hitems (hfaithful.mono infix_append_left) item hin
  · exact hover (hfaithful.mono infix_append_right) item hin

/-- A node whose summary is not accepted has no accepted item. -/
theorem rejects_of_summary {height : Nat} {tree : SumTree T S} (htree : Shaped height tree)
    (hsummary : filterNode tree.summary = false) :
    Rejects filterNode tree.toList tree.toList := by
  intro hfaithful item hitem
  cases haccepted : filterNode (Item.summary item) with
  | false => rfl
  | true =>
    have hall := hfaithful tree.toList (infix_refl _) item hitem haccepted
    rw [← htree.summary_eq, hsummary] at hall
    exact absurd hall (by decide)

/-! Forward. -/

/-- The search came to an accepted item of the part, or over the whole part. -/
inductive Forward (filterNode : S → Bool) (root : SumTree T S) (start finish before part : List T) :
    D → Option (List (StackEntry T S D)) → Prop
  | whole (rejects : Rejects filterNode part part) :
      Forward filterNode root start finish before part (positionOf D (before ++ part)) none
  | inside {entries : List (StackEntry T S D)} {crossed rest back : List T} {item : T}
      (split : part = crossed ++ item :: rest) (rejects : Rejects filterNode part crossed)
      (accepted : filterNode (Item.summary item) = true)
      (stands : Stands root start finish entries (before ++ crossed) item back) :
      Forward filterNode root start finish before part (positionOf D (before ++ crossed))
        (some entries)

section Forward

variable {root : SumTree T S} {start finish before part next : List T} {position : D}
  {found : Option (List (StackEntry T S D))}

theorem Forward.append (hpart : Rejects filterNode part part)
    (h : Forward filterNode root start finish (before ++ part) next position found) :
    Forward filterNode root start finish before (part ++ next) position found := by
  cases h with
  | whole rejects =>
    rw [append_assoc]
    exact .whole (hpart.append rejects)
  | inside split rejects accepted stands =>
    rw [append_assoc] at stands ⊢
    exact .inside (by rw [split, append_assoc]) (hpart.append rejects) accepted stands

theorem Forward.append_right {entries : List (StackEntry T S D)}
    (h : Forward filterNode root start finish before part position (some entries)) (next : List T) :
    Forward filterNode root start finish before (part ++ next) position (some entries) := by
  cases h with
  | @inside _ crossed rest _ item split rejects accepted stands =>
    have hsplit : part ++ next = crossed ++ item :: (rest ++ next) := by
      rw [split, append_assoc, cons_append]
    refine .inside hsplit ?_ accepted stands
    exact fun hfaithful => rejects (hfaithful.mono infix_append_left)

theorem Forward.outside {tree : SumTree T S} {after front : List T}
    {stack : List (StackEntry T S D)} (path : Path root start finish stack tree before after)
    (h : Forward filterNode tree before after front part position found) :
    Forward filterNode root start finish front part position (found.map (· ++ stack)) := by
  cases h with
  | whole rejects => exact .whole rejects
  | inside split rejects accepted stands =>
    exact .inside split rejects accepted (path.stands stands)

end Forward

theorem forwardLeaf_spec {items : List T} :
    ∀ {index : Nat} {before : List T}, ((∀ item ∈ items, filterNode (Item.summary item) = false) ∧
        forwardLeaf filterNode index (positionOf D before) (items.map Item.summary) =
          (positionOf D (before ++ items), none)) ∨
      ∃ crossed item rest, items = crossed ++ item :: rest ∧
        (∀ other ∈ crossed, filterNode (Item.summary other) = false) ∧
        filterNode (Item.summary item) = true ∧
        forwardLeaf filterNode index (positionOf D before) (items.map Item.summary) =
          (positionOf D (before ++ crossed), some (index + crossed.length)) := by
  induction items with
  | nil =>
    intro index before
    exact .inl ⟨by simp, by rw [map_nil, forwardLeaf, append_nil]⟩
  | cons item items ih =>
    intro index before
    rw [map_cons, forwardLeaf]
    cases haccepted : filterNode (Item.summary item) with
    | true =>
      refine .inr ⟨[], item, items, rfl, by simp, haccepted, ?_⟩
      rw [append_nil]
      rfl
    | false =>
      rw [← positionOf_append_singleton]
      rcases @ih (index + 1) (before ++ [item]) with ⟨hnone, hrun⟩ |
        ⟨crossed, other, rest, hitems, hover, hother, hrun⟩
      · refine .inl ⟨?_, by rw [hrun, append_assoc]; rfl⟩
        rintro other (_ | ⟨_, hmem⟩)
        · exact haccepted
        · exact hnone other hmem
      · refine .inr ⟨item :: crossed, other, rest, by rw [hitems]; rfl, ?_, hother, ?_⟩
        · rintro x (_ | ⟨_, hmem⟩)
          · exact haccepted
          · exact hover x hmem
        · rw [hrun, append_assoc]
          have hindex : index + 1 + crossed.length = index + (crossed.length + 1) := by omega
          rw [hindex]
          rfl

/-- A leaf searched from its beginning or from further on: the items in front are `left`. -/
theorem forwardLeaf_moves {summary : S} {itemSummaries : List S} {left right before after : List T}
    {position : D} :
    ∃ position' found, forwardLeaf filterNode left.length (positionOf D (before ++ left))
        (right.map Item.summary) = (position', found) ∧
      Forward filterNode (.leaf summary (left ++ right) itemSummaries) before after
        (before ++ left) right position' (found.map fun index =>
          [(⟨.leaf summary (left ++ right) itemSummaries, index, position⟩ :
            StackEntry T S D)]) := by
  rcases @forwardLeaf_spec T S D _ _ _ filterNode right left.length (before ++ left) with
    ⟨hnone, hrun⟩ | ⟨crossed, item, rest, rfl, hover, haccepted, hrun⟩
  · exact ⟨_, _, hrun, .whole fun _ => hnone⟩
  · refine ⟨_, _, hrun, ?_⟩
    have hstands : Stands (.leaf summary (left ++ crossed ++ item :: rest) itemSummaries) before
        after [(⟨.leaf summary (left ++ crossed ++ item :: rest) itemSummaries,
          (left ++ crossed).length, position⟩ : StackEntry T S D)]
        (before ++ (left ++ crossed)) item (rest ++ after) :=
      .leaf .root
    rw [append_assoc left crossed, length_append, ← append_assoc before left crossed] at hstands
    exact .inside rfl (fun _ => hover) haccepted hstands

/-- The search in a tree that has just been entered. -/
def ForwardIn (D : Type w) [Dimension D S] (filterNode : S → Bool) (tree : SumTree T S) : Prop :=
  ∀ before after : List T, ∃ position found,
    forwardTree filterNode (positionOf D before) tree (positionOf D before) = (position, found) ∧
      Forward filterNode tree before after before tree.toList position found

variable {height : Nat}

/-- The children from an index on: those in front are `left`. -/
theorem forwardChildren_spec {own : Nat} {summary : S} {childSummaries : List S}
    {right : List (SumTree T S)} :
    ∀ {left : List (SumTree T S)} {before after : List T},
      (∀ child ∈ right, Shaped height child ∧ ForwardIn D filterNode child) → ∃ position found,
          forwardChildren filterNode (.internal own summary childSummaries (left ++ right))
              left.length (positionOf D (before ++ left.flatMap toList)) right
              (right.map SumTree.summary) (positionOf D (before ++ left.flatMap toList)) =
            (position, found) ∧
          Forward filterNode (.internal own summary childSummaries (left ++ right)) before after
            (before ++ left.flatMap toList) (right.flatMap toList) position found := by
  induction right with
  | nil =>
    intro left before after _
    have hwhole := @Forward.whole T S D _ _ _ filterNode
      (.internal own summary childSummaries (left ++ [])) before after
      (before ++ left.flatMap toList) [] fun _ item hitem => absurd hitem not_mem_nil
    rw [append_nil (before ++ left.flatMap toList)] at hwhole
    exact ⟨_, none, by rw [forwardChildren]; simp, hwhole⟩
  | cons child right ih =>
    intro left before after hchildren
    obtain ⟨hshaped, hin⟩ := hchildren child mem_cons_self
    have hright := fun other hother => hchildren other (mem_cons_of_mem child hother)
    have hmoved : left ++ child :: right = left ++ [child] ++ right := by simp
    have hlength : left.length + 1 = (left ++ [child]).length := by simp
    have hfront : before ++ (left ++ [child]).flatMap toList =
        before ++ left.flatMap toList ++ child.toList := by simp
    have hend := @Shaped.addSummary_positionOf T S D _ _ _ _ _ hshaped
      (before ++ left.flatMap toList)
    -- the children after this one, when it has no accepted item
    have hnext : Rejects filterNode child.toList child.toList → ∃ position found, forwardChildren
          filterNode (.internal own summary childSummaries (left ++ child :: right)) (left.length +
          1) (positionOf D (before ++ left.flatMap toList ++ child.toList)) right (right.map
          SumTree.summary) (positionOf D (before ++ left.flatMap toList ++ child.toList)) =
          (position, found) ∧ Forward filterNode (.internal own summary childSummaries (left ++
          child :: right)) before after (before ++ left.flatMap toList) ((child :: right).flatMap
          toList) position found := by
      intro hrejects
      rw [hmoved, ← hfront, hlength]
      obtain ⟨position, found, hrun, hforward⟩ := @ih (left ++ [child]) before after hright
      rw [hfront] at hforward
      exact ⟨position, found, hrun, hforward.append hrejects⟩
    rw [map_cons, forwardChildren, hend]
    cases hsummary : filterNode child.summary with
    | false =>
      exact hnext (rejects_of_summary hshaped hsummary)
    | true =>
      obtain ⟨position, found, hrun, hforward⟩ :=
        hin (before ++ left.flatMap toList) (right.flatMap toList ++ after)
      rw [hrun]
      cases found with
      | none =>
        cases hforward with
        | whole rejects => exact hnext rejects
      | some entries =>
        exact ⟨_, _, rfl, (hforward.outside Path.root.child).append_right _⟩

theorem forwardTree_spec {tree : SumTree T S} (htree : Shaped height tree) :
    ForwardIn D filterNode tree := by
  induction htree with
  | leaf filled fits summaries total =>
    rename_i summary items itemSummaries
    intro before after
    obtain ⟨position, found, hrun, hforward⟩ := @forwardLeaf_moves T S D _ _ _ filterNode summary
      itemSummaries [] items before after (positionOf D before)
    rw [append_nil] at hrun hforward
    subst summaries
    rw [forwardTree]
    refine ⟨position, _, ?_, hforward⟩
    rw [length_nil] at hrun
    rw [hrun]
    rfl
  | @internal height summary childSummaries childTrees filled fits children summaries total ih =>
    intro before after
    have hchildren := @forwardChildren_spec T S D _ _ _ filterNode height (height + 1) summary
      childSummaries childTrees [] before after
      fun child hchild => ⟨children child hchild, ih child hchild⟩
    subst summaries
    rw [flatMap_nil, append_nil] at hchildren
    rw [toList_internal]
    exact hchildren

variable {root : SumTree T S}

/-- Ascending out of a tree without an accepted item. -/
theorem forwardStack_ascending {tree : SumTree T S}
    (hroot : Shaped height root) {before after : List T} {stack : List (StackEntry T S D)}
    (path : Path root [] [] stack tree before after) :
    ∃ position found, forwardStack filterNode false stack (positionOf D (before ++ tree.toList)) =
          some (position, found.getD []) ∧
        Forward filterNode root [] [] (before ++ tree.toList) after position found := by
  induction path with
  | root =>
    have hwhole := @Forward.whole T S D _ _ _ filterNode root [] [] ([] ++ root.toList) []
      fun _ item hitem => absurd hitem not_mem_nil
    rw [append_nil] at hwhole
    exact ⟨_, none, rfl, hwhole⟩
  | @child stack own summary childSummaries left right child before after path ih =>
    obtain ⟨level, hshaped⟩ := path.shaped hroot
    cases hshaped with
    | @internal below _ _ _ filled fits children summaries total =>
      have hnode : left ++ child :: right = left ++ [child] ++ right := by simp
      have hfront : before ++ (left ++ [child]).flatMap toList =
          before ++ left.flatMap toList ++ child.toList := by simp
      have hlength : (left ++ [child]).length = left.length + 1 := by simp
      have hdrop : (left ++ child :: right).drop (left.length + 1) = right := by
        rw [hnode, ← hlength, drop_left]
      have hsums : childSummaries.drop (left.length + 1) = right.map SumTree.summary := by
        rw [summaries, ← map_drop, hdrop]
      have hchildren : ∀ other ∈ right, Shaped below other ∧ ForwardIn D filterNode other := by
        intro other hother
        have hshaped := children other (by simp [hother])
        exact ⟨hshaped, forwardTree_spec hshaped⟩
      obtain ⟨position, found, hrun, hforward⟩ := @forwardChildren_spec T S D _ _ _ filterNode
        below (below + 1) summary childSummaries right (left ++ [child]) before after hchildren
      rw [← hnode, hfront, hlength] at hrun
      rw [← hnode, hfront] at hforward
      rw [forwardStack]
      simp only [Bool.false_eq_true, if_false, hdrop, hsums, hrun]
      cases found with
      | some entries => exact ⟨_, some (entries ++ stack), rfl,
          (hforward.outside path).append_right after⟩
      | none =>
        cases hforward with
        | whole rejects =>
          have hall : before ++ left.flatMap toList ++ child.toList ++ right.flatMap toList =
                before ++ (SumTree.internal (below + 1) summary childSummaries
                  (left ++ child :: right)).toList := by
            simp
          rw [hall]
          obtain ⟨position, found, hrun, hforward⟩ := ih
          rw [← hall] at hforward
          exact ⟨position, found, hrun, hforward.append rejects⟩

/-- Past the item the cursor stands at. -/
theorem forwardStack_stands (hroot : Shaped height root)
    {front back : List T} {item : T} {stack : List (StackEntry T S D)}
    (stands : Stands root [] [] stack front item back) :
    ∃ position found, forwardStack filterNode false stack (positionOf D front) =
          some (position, found.getD []) ∧
        Forward filterNode root [] [] (front ++ [item]) back position found := by
  cases stands with
  | @leaf stack summary itemSummaries left right before after _ own path =>
    obtain ⟨level, hshaped⟩ := path.shaped hroot
    cases hshaped with
    | leaf filled fits summaries total =>
      have hnode : left ++ item :: right = left ++ [item] ++ right := by simp
      have hlength : (left ++ [item]).length = left.length + 1 := by simp
      have hfront : before ++ left ++ [item] = before ++ (left ++ [item]) := by simp
      have hget : itemSummaries[left.length]? = some (Item.summary item) := by
        rw [summaries]
        simp
      have hsums : itemSummaries.drop (left.length + 1) = right.map Item.summary := by
        rw [summaries, ← map_drop, hnode, ← hlength, drop_left]
      have hend : addSummary (positionOf D (before ++ left)) (Item.summary item) =
          positionOf D (before ++ (left ++ [item])) := by
        rw [← hfront, positionOf_append_singleton]
      obtain ⟨position, found, hrun, hforward⟩ := @forwardLeaf_moves T S D _ _ _ filterNode
        summary itemSummaries (left ++ [item]) right before after own
      rw [hlength] at hrun
      rw [← hnode] at hforward
      rw [forwardStack]
      simp only [Bool.false_eq_true, if_false, hget, hsums, hend, hrun]
      rw [hfront]
      cases found with
      | some index => exact ⟨_, some (_ ++ stack), rfl,
          (hforward.outside path).append_right after⟩
      | none =>
        cases hforward with
        | whole rejects =>
          have hall : before ++ (left ++ [item]) ++ right =
              before ++ (SumTree.leaf summary (left ++ item :: right) itemSummaries).toList := by
            simp
          obtain ⟨position, found, hrun, hforward⟩ :=
            @forwardStack_ascending T S D _ _ _ filterNode _ root _ hroot before after stack path
          rw [← hall] at hrun hforward
          exact ⟨position, found, hrun, hforward.append rejects⟩

/-- From a new entry for the root. -/
theorem forwardStack_root (hroot : Shaped height root) : ∃ position found,
      forwardStack filterNode true [⟨root, 0, zero S⟩] (zero S : D) =
          some (position, found.getD []) ∧
        Forward filterNode root [] [] [] root.toList position found := by
  have hsearch : forwardStack filterNode true [⟨root, 0, zero S⟩] (zero S : D) =
      some ((forwardTree filterNode (zero S : D) root (zero S)).1,
        (forwardTree filterNode (zero S : D) root (zero S)).2.getD []) := by
    cases root with
    | leaf summary items itemSummaries =>
      rw [forwardStack, forwardTree]
      simp only [if_true, drop_zero]
      rcases forwardLeaf filterNode 0 (zero S : D) itemSummaries with
        ⟨position, _ | index⟩
      · rfl
      · rfl
    | internal own summary childSummaries childTrees =>
      rw [forwardStack, forwardTree]
      simp only [if_true, drop_zero]
      rcases forwardChildren filterNode (.internal own summary childSummaries childTrees) 0
        (zero S : D) childTrees childSummaries (zero S) with
        ⟨position, _ | entries⟩
      · rfl
      · simp
  obtain ⟨position, found, hrun, hforward⟩ :=
    @forwardTree_spec T S D _ _ _ filterNode height root hroot [] []
  have hzero : positionOf D ([] : List T) = zero S := rfl
  rw [hzero] at hrun
  rw [hrun] at hsearch
  exact ⟨position, found, hsearch, hforward⟩

/-! Backward. -/

/-- The search came to an accepted item of the part from its end, or over the whole part. -/
inductive Backward (filterNode : S → Bool) (root : SumTree T S)
    (start finish before part : List T) : Option (D × List (StackEntry T S D)) → Prop
  | whole (rejects : Rejects filterNode part part) :
      Backward filterNode root start finish before part none
  | inside {entries : List (StackEntry T S D)} {front crossed back : List T} {item : T}
      (split : part = front ++ item :: crossed) (rejects : Rejects filterNode part crossed)
      (accepted : filterNode (Item.summary item) = true)
      (stands : Stands root start finish entries (before ++ front) item back) :
      Backward filterNode root start finish before part
        (some (positionOf D (before ++ front), entries))

section Backward

variable {root : SumTree T S} {start finish before part next : List T}
  {found : Option (D × List (StackEntry T S D))}

theorem Backward.append (hnext : Rejects filterNode next next)
    (h : Backward filterNode root start finish before part found) :
    Backward filterNode root start finish before (part ++ next) found := by
  cases h with
  | whole rejects => exact .whole (rejects.append hnext)
  | inside split rejects accepted stands =>
    refine .inside (by rw [split, append_assoc]; rfl) (rejects.append hnext) accepted stands

theorem Backward.append_left {result : D × List (StackEntry T S D)}
    (h : Backward filterNode root start finish (before ++ part) next (some result)) :
    Backward filterNode root start finish before (part ++ next) (some result) := by
  cases h with
  | inside split rejects accepted stands =>
    rw [append_assoc] at stands ⊢
    refine .inside (by rw [split, append_assoc]) ?_ accepted stands
    exact fun hfaithful => rejects (hfaithful.mono infix_append_right)

theorem Backward.outside {tree : SumTree T S} {after front : List T}
    {stack : List (StackEntry T S D)} (path : Path root start finish stack tree before after)
    (h : Backward filterNode tree before after front part found) :
    Backward filterNode root start finish front part
      (found.map fun result => (result.1, result.2 ++ stack)) := by
  cases h with
  | whole rejects => exact .whole rejects
  | inside split rejects accepted stands =>
    exact .inside split rejects accepted (path.stands stands)

end Backward

theorem backwardLeaf_spec {items : List T} :
    ∀ {index : Nat} {before : List T}, ((∀ item ∈ items, filterNode (Item.summary item) = false) ∧
        backwardLeaf filterNode index (positionOf D before) (items.map Item.summary) = none) ∨
      ∃ front item crossed, items = front ++ item :: crossed ∧
        (∀ other ∈ crossed, filterNode (Item.summary other) = false) ∧
        filterNode (Item.summary item) = true ∧
        backwardLeaf filterNode index (positionOf D before) (items.map Item.summary) =
          some (positionOf D (before ++ front), index + front.length) := by
  induction items with
  | nil =>
    intro index before
    exact .inl ⟨by simp, by rw [map_nil, backwardLeaf]⟩
  | cons item items ih =>
    intro index before
    rw [map_cons, backwardLeaf, ← positionOf_append_singleton]
    rcases @ih (index + 1) (before ++ [item]) with ⟨hnone, hrun⟩ |
      ⟨front, other, crossed, hitems, hover, hother, hrun⟩
    · rw [hrun]
      cases haccepted : filterNode (Item.summary item) with
      | true =>
        refine .inr ⟨[], item, items, rfl, hnone, haccepted, ?_⟩
        rw [append_nil]
        rfl
      | false =>
        refine .inl ⟨?_, rfl⟩
        rintro other (_ | ⟨_, hmem⟩)
        · exact haccepted
        · exact hnone other hmem
    · rw [hrun]
      refine .inr ⟨item :: front, other, crossed, by rw [hitems]; rfl, hover, hother, ?_⟩
      have hindex : index + 1 + front.length = index + (item :: front).length := by
        rw [length_cons]
        omega
      have hfront : before ++ [item] ++ front = before ++ item :: front := by simp
      simp only [hindex, hfront]

/-- A leaf searched from its end or from further back: the items behind are `right`. -/
theorem backwardLeaf_moves {summary : S} {itemSummaries : List S}
    {left right before after : List T} :
    Backward filterNode (.leaf summary (left ++ right) itemSummaries) before after before left
      ((backwardLeaf filterNode 0 (positionOf D before) (left.map Item.summary)).map fun result =>
        (result.1, [(⟨.leaf summary (left ++ right) itemSummaries, result.2, result.1⟩ :
          StackEntry T S D)])) := by
  rcases @backwardLeaf_spec T S D _ _ _ filterNode left 0 before with
    ⟨hnone, hrun⟩ | ⟨front, item, crossed, rfl, hover, haccepted, hrun⟩
  · rw [hrun]
    exact .whole fun _ => hnone
  · rw [hrun, Nat.zero_add]
    have hstands : Stands (.leaf summary (front ++ item :: (crossed ++ right)) itemSummaries) before
        after [(⟨.leaf summary (front ++ item :: (crossed ++ right)) itemSummaries, front.length,
          positionOf D (before ++ front)⟩ : StackEntry T S D)] (before ++ front) item
          (crossed ++ right ++ after) :=
      .leaf .root
    rw [← cons_append, ← append_assoc] at hstands
    exact .inside rfl (fun _ => hover) haccepted hstands

/-- The search in a tree that has just been entered at its end. -/
def BackwardIn (D : Type w) [Dimension D S] (filterNode : S → Bool) (tree : SumTree T S) : Prop :=
  ∀ before after : List T, Backward filterNode tree before after before tree.toList
      (backwardTree filterNode tree (positionOf D before))

variable {height : Nat}

/-- The children up to an index: `left` in front of these, `right` behind them. -/
theorem backwardChildren_spec {own : Nat} {summary : S} {childSummaries : List S}
    {middle right : List (SumTree T S)} :
    ∀ {left : List (SumTree T S)} {before after : List T},
      (∀ child ∈ middle, Shaped height child ∧ BackwardIn D filterNode child) →
        Backward filterNode (.internal own summary childSummaries (left ++ (middle ++ right)))
          before after (before ++ left.flatMap toList) (middle.flatMap toList)
          (backwardChildren filterNode
            (.internal own summary childSummaries (left ++ (middle ++ right))) left.length middle
            (middle.map SumTree.summary) (positionOf D (before ++ left.flatMap toList))) := by
  induction middle with
  | nil =>
    intro left before after _
    rw [backwardChildren]
    · exact .whole fun _ item hitem => absurd hitem not_mem_nil
    · simp
  | cons child middle ih =>
    intro left before after hchildren
    obtain ⟨hshaped, hin⟩ := hchildren child mem_cons_self
    have hrest := fun other hother => hchildren other (mem_cons_of_mem child hother)
    have hmoved : left ++ [child] ++ (middle ++ right) = left ++ (child :: middle ++ right) := by
      simp
    have hlength : (left ++ [child]).length = left.length + 1 := by simp
    have hfront : before ++ (left ++ [child]).flatMap toList =
        before ++ left.flatMap toList ++ child.toList := by simp
    have hend := @Shaped.addSummary_positionOf T S D _ _ _ _ _ hshaped
      (before ++ left.flatMap toList)
    have hlater := @ih (left ++ [child]) before after hrest
    rw [hmoved, hlength, hfront] at hlater
    rw [map_cons, backwardChildren, hend]
    generalize hfound : backwardChildren filterNode
      (.internal own summary childSummaries (left ++ (child :: middle ++ right)))
      (left.length + 1) middle (middle.map SumTree.summary)
      (positionOf D (before ++ left.flatMap toList ++ child.toList)) = found at hlater
    cases found with
    | some result => exact hlater.append_left
    | none =>
      cases hlater with
      | whole rejects =>
        cases hsummary : filterNode child.summary with
        | false =>
          exact .whole ((rejects_of_summary hshaped hsummary).append rejects)
        | true =>
          exact ((hin _ _).outside Path.root.child).append rejects

variable {tree : SumTree T S}

theorem backwardTree_spec (htree : Shaped height tree) : BackwardIn D filterNode tree := by
  induction htree with
  | leaf filled fits summaries total =>
    rename_i summary items itemSummaries
    intro before after
    have hleaf := @backwardLeaf_moves T S D _ _ _ filterNode summary itemSummaries items [] before
      after
    rw [append_nil] at hleaf
    subst summaries
    exact hleaf
  | @internal height summary childSummaries childTrees filled fits children summaries total ih =>
    intro before after
    have hchildren := @backwardChildren_spec T S D _ _ _ filterNode height (height + 1) summary
      childSummaries childTrees [] [] before after
      fun child hchild => ⟨children child hchild, ih child hchild⟩
    subst summaries
    rw [flatMap_nil, append_nil, append_nil] at hchildren
    rw [toList_internal]
    exact hchildren

variable {root : SumTree T S} {stack : List (StackEntry T S D)}

/-- The entry below the top of the stack holds where the node of the top entry starts. -/
theorem Path.start_eq {before after : List T} (path : Path root [] [] stack tree before after) :
    startAbove stack = positionOf D before := by
  cases path with
  | root => rfl
  | child => rfl

/-- What the search came to in the whole tree, in front of a place. -/
inductive BackwardEnd (filterNode : S → Bool) (root : SumTree T S) (front : List T) :
    D × List (StackEntry T S D) → Prop
  | whole (rejects : Rejects filterNode front front) :
      BackwardEnd filterNode root front (zero S, [])
  | inside {entries : List (StackEntry T S D)} {before crossed back : List T} {item : T}
      (split : front = before ++ item :: crossed) (rejects : Rejects filterNode front crossed)
      (accepted : filterNode (Item.summary item) = true)
      (stands : Stands root [] [] entries before item back) :
      BackwardEnd filterNode root front (positionOf D before, entries)

theorem BackwardEnd.append {front next : List T}
    {result : D × List (StackEntry T S D)} (hnext : Rejects filterNode next next)
    (h : BackwardEnd filterNode root front result) :
    BackwardEnd filterNode root (front ++ next) result := by
  cases h with
  | whole rejects => exact .whole (rejects.append hnext)
  | inside split rejects accepted stands =>
    exact .inside (by rw [split, append_assoc]; rfl) (rejects.append hnext) accepted stands

theorem Backward.end_of_some {before part : List T} {result : D × List (StackEntry T S D)}
    (h : Backward filterNode root [] [] before part (some result)) :
    BackwardEnd filterNode root (before ++ part) result := by
  cases h with
  | inside split rejects accepted stands =>
    refine .inside (by rw [split, append_assoc]) ?_ accepted stands
    exact fun hfaithful => rejects (hfaithful.mono infix_append_right)

variable (hroot : Shaped height root)

include hroot

/-- Ascending out of a tree without an accepted item in front. -/
theorem backwardStack_ascending {before after : List T}
    (path : Path root [] [] stack tree before after) :
    BackwardEnd filterNode root before (backwardStack filterNode stack) := by
  induction path with
  | root => exact .whole fun _ item hitem => absurd hitem not_mem_nil
  | @child stack own summary childSummaries left right child before after path ih =>
    obtain ⟨level, hshaped⟩ := path.shaped hroot
    cases hshaped with
    | @internal below _ _ _ filled fits children summaries total =>
      have hsums : childSummaries.take left.length = left.map SumTree.summary := by
        rw [summaries, ← map_take, take_left]
      have hchildren : ∀ other ∈ left, Shaped below other ∧ BackwardIn D filterNode other := by
        intro other hother
        have hshaped := children other (by simp [hother])
        exact ⟨hshaped, backwardTree_spec hshaped⟩
      have hbackward := @backwardChildren_spec T S D _ _ _ filterNode below (below + 1) summary
        childSummaries left (child :: right) [] before after hchildren
      rw [flatMap_nil, append_nil, nil_append] at hbackward
      rw [backwardStack]
      simp only [path.start_eq, hsums, take_left]
      generalize backwardChildren filterNode
        (.internal (below + 1) summary childSummaries (left ++ child :: right)) 0 left
        (left.map SumTree.summary) (positionOf D before) = found at hbackward
      cases found with
      | some result => exact (hbackward.outside path).end_of_some
      | none =>
        cases hbackward with
        | whole rejects => exact ih.append rejects

/-- In front of the item the cursor stands at. -/
theorem backwardStack_stands {front back : List T} {item : T}
    (stands : Stands root [] [] stack front item back) :
    BackwardEnd filterNode root front (backwardStack filterNode stack) := by
  cases stands with
  | @leaf stack summary itemSummaries left right before after _ own path =>
    obtain ⟨level, hshaped⟩ := path.shaped hroot
    cases hshaped with
    | leaf filled fits summaries total =>
      have hsums : itemSummaries.take left.length = left.map Item.summary := by
        rw [summaries, ← map_take, take_left]
      have hbackward := @backwardLeaf_moves T S D _ _ _ filterNode summary itemSummaries left
        (item :: right) before after
      rw [backwardStack]
      simp only [path.start_eq, hsums]
      generalize backwardLeaf filterNode 0 (positionOf D before) (left.map Item.summary) = found
        at hbackward
      cases found with
      | some result => exact (hbackward.outside path).end_of_some
      | none =>
        cases hbackward with
        | whole rejects => exact (backwardStack_ascending hroot path).append rejects

/-- From behind the last item. -/
theorem backwardStack_root (position : D) : BackwardEnd filterNode root root.toList
      (backwardStack filterNode [⟨root, root.childSummaries.length, position⟩]) := by
  have hbackward := @backwardTree_spec T S D _ _ _ filterNode height root hroot [] []
  have hzero : positionOf D ([] : List T) = zero S := rfl
  have hsearch : backwardStack filterNode [⟨root, root.childSummaries.length, position⟩] =
      (backwardTree filterNode root (zero S : D)).getD (zero S, []) := by
    cases hroot with
    | @leaf summary items itemSummaries filled fits summaries total =>
      rw [backwardStack, backwardTree]
      simp only [SumTree.childSummaries, take_length, startAbove]
      cases backwardLeaf filterNode 0 (zero S : D) itemSummaries with
      | none => rfl
      | some result => rfl
    | @internal below summary childSummaries childTrees filled fits children summaries total =>
      have hlength : childSummaries.length = childTrees.length := by
        rw [summaries, length_map]
      rw [backwardStack, backwardTree]
      simp only [SumTree.childSummaries, take_length, startAbove]
      rw [hlength, take_length]
      cases backwardChildren filterNode (.internal (below + 1) summary childSummaries childTrees)
        0 childTrees childSummaries (zero S : D) with
      | none => rfl
      | some result => simp
  rw [hzero] at hbackward
  rw [hsearch]
  cases hfound : backwardTree filterNode root (zero S : D) with
  | none =>
    rw [hfound] at hbackward
    cases hbackward with
    | whole rejects => exact .whole rejects
  | some result =>
    rw [hfound] at hbackward
    have hend := hbackward.end_of_some
    rwa [nil_append] at hend

end OpenGpui.SumTrees
