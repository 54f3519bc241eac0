/-
What a forward seek does to the stack of a cursor: the skipped items are collected, and the
entries lead to the first item that is not skipped.
-/
import OpenGpui.SumTree.Path

namespace OpenGpui.SumTrees

open List Dimension Bool SeekAggregate

universe u v w x

open SumTree

variable {T : Type u} {S : Type v} {D : Type w} {A : Type x}
variable [Summary S] [Item T S] [Dimension D S]

variable {holds : A → List T → List T → Prop} {target : SeekTarget D} {bias : Bias}

/-- What the loop has come to when the items of a part are read: the skipped ones collected. -/
structure Sought (holds : A → List T → List T → Prop) (target : SeekTarget D) (bias : Bias)
    (before done part : List T) (state : Seeking A D) : Prop where
  position : state.position =
    positionOf D (before ++ skipped target bias (positionOf D before) part)
  aggregate : holds state.aggregate (done ++ skipped target bias (positionOf D before) part) []

variable {before done : List T} {state : Seeking A D}

theorem Sought.nil
    (hposition : state.position = positionOf D before) (hholds : holds state.aggregate done []) :
    Sought holds target bias before done [] state := by
  constructor
  · rw [hposition, skipped_nil, append_nil]
  · rwa [skipped_nil, append_nil]

variable {part : List T}

/-- A part that is skipped whole, and then the next part. -/
theorem Sought.append {next : List T}
    (hpart : skipped target bias (positionOf D before) part = part)
    (hnext : Sought holds target bias (before ++ part) (done ++ part) next state) :
    Sought holds target bias before done (part ++ next) state := by
  have hskip : skipped target bias (positionOf D before) (part ++ next) =
      part ++ skipped target bias (positionOf D (before ++ part)) next := by
    rw [skipped_append_of_eq hpart, positionOf_append]
  constructor
  · rw [hskip, hnext.position, append_assoc]
  · have haggregate := hnext.aggregate
    rwa [append_assoc, ← hskip] at haggregate

/-- A part in which the seek stops, whatever follows it. -/
theorem Sought.append_of_ne (hpart : skipped target bias (positionOf D before) part ≠ part)
    (hsought : Sought holds target bias before done part state) (next : List T) :
    Sought holds target bias before done (part ++ next) state := by
  have hskip := skipped_append_of_ne hpart next
  constructor
  · rw [hskip]
    exact hsought.position
  · rw [hskip]
    exact hsought.aggregate

/-- The loop stopped at the first item it did not skip, or skipped the whole part. -/
inductive Stopped (target : SeekTarget D) (bias : Bias) (root : SumTree T S)
    (start finish before part : List T) : Option (List (StackEntry T S D)) → Prop
  | whole (all : skipped target bias (positionOf D before) part = part) :
      Stopped target bias root start finish before part none
  | inside {entries : List (StackEntry T S D)} {item : T} {back : List T}
      (more : skipped target bias (positionOf D before) part ≠ part)
      (stands : Stands root start finish entries
        (before ++ skipped target bias (positionOf D before) part) item back) :
      Stopped target bias root start finish before part (some entries)

variable {root : SumTree T S} {found : Option (List (StackEntry T S D))} {start finish : List T}

theorem Stopped.append {next : List T}
    (hpart : skipped target bias (positionOf D before) part = part)
    (hnext : Stopped target bias root start finish (before ++ part) next found) :
    Stopped target bias root start finish before (part ++ next) found := by
  have hskip : skipped target bias (positionOf D before) (part ++ next) =
      part ++ skipped target bias (positionOf D (before ++ part)) next := by
    rw [skipped_append_of_eq hpart, positionOf_append]
  cases hnext with
  | whole all => exact .whole (by rw [hskip, all])
  | @inside _ item back more stands =>
    refine @Stopped.inside _ _ _ _ _ _ _ _ _ _ _ _ _ _ item back ?_ ?_
    · rw [hskip]
      exact fun heq => more (append_cancel_left heq)
    · rwa [hskip, ← append_assoc]

theorem Stopped.append_of_ne (hpart : skipped target bias (positionOf D before) part ≠ part)
    (hstopped : Stopped target bias root start finish before part found) (next : List T) :
    Stopped target bias root start finish before (part ++ next) found := by
  have hskip := skipped_append_of_ne hpart next
  cases hstopped with
  | whole all => exact absurd all hpart
  | @inside _ item back more stands =>
    refine @Stopped.inside _ _ _ _ _ _ _ _ _ _ _ _ _ _ item back ?_ (by rwa [hskip])
    -- a proper front part of the part is not the part with more behind it
    intro heq
    have hlength := congrArg List.length heq
    have hle := (skipped_isPrefix (positionOf D before) part :
      skipped target bias _ _ <+: _).length_le
    rw [hskip, length_append] at hlength
    exact more ((skipped_isPrefix _ _).eq_of_length (by omega))

theorem Stopped.outside {tree : SumTree T S} {after front : List T}
    {stack : List (StackEntry T S D)} (path : Path root start finish stack tree before after)
    (hstopped : Stopped target bias tree before after front part found) :
    Stopped target bias root start finish front part (found.map (· ++ stack)) := by
  cases hstopped with
  | whole all => exact .whole all
  | inside more stands => exact .inside more (path.stands stands)

/-- The seek went over the items behind `front`: it collected the skipped ones, and the stack
leads to the item after them or is empty. -/
structure Passed (holds : A → List T → List T → Prop) (target : SeekTarget D) (bias : Bias)
    (root : SumTree T S) (front done rest : List T)
    (result : Option (Seeking A D × List (StackEntry T S D))) (state : Seeking A D)
    (found : Option (List (StackEntry T S D))) : Prop where
  run : result = some (state, found.getD [])
  sought : Sought holds target bias front done rest state
  stopped : Stopped target bias root [] [] front rest found

theorem Passed.of_part {front rest : List T}
    {stack entries : List (StackEntry T S D)} (hfound : found = some entries)
    (hsought : Sought holds target bias front done part state)
    (hstopped : Stopped target bias root [] [] front part (found.map (· ++ stack))) :
    Passed holds target bias root front done (part ++ rest) (some (state, entries ++ stack)) state
      (some (entries ++ stack)) := by
  subst hfound
  have hmore : skipped target bias (positionOf D front) part ≠ part := by
    cases hstopped with
    | inside more => exact more
  exact ⟨rfl, hsought.append_of_ne hmore rest, hstopped.append_of_ne hmore rest⟩

variable [SeekAggregate A T S]

/-- An aggregate that holds items, and those of the leaf that is being read apart from them. -/
structure Collects (holds : A → List T → List T → Prop) : Prop where
  pushTree : ∀ {aggregate : A} {done : List T} {height : Nat} {tree : SumTree T S},
    holds aggregate done [] → Shaped height tree →
      ∃ aggregate', pushTree aggregate tree tree.summary = some aggregate' ∧
        holds aggregate' (done ++ tree.toList) []
  pushItem : ∀ {aggregate : A} {done leaf : List T} (item : T),
    holds aggregate done leaf → leaf.length < 2 * treeBase →
      ∃ aggregate', pushItem aggregate item (Item.summary item) = some aggregate' ∧
        holds aggregate' done (leaf ++ [item])
  endLeaf : ∀ {aggregate : A} {done leaf : List T},
    holds aggregate done leaf → leaf.length ≤ 2 * treeBase →
      ∃ aggregate', endLeaf T S aggregate = some aggregate' ∧ holds aggregate' (done ++ leaf) []

theorem collects_unit : Collects (T := T) (fun (_ : Unit) _ _ => True) where
  pushTree _ _ := ⟨(), rfl, trivial⟩
  pushItem _ _ _ := ⟨(), rfl, trivial⟩
  endLeaf _ _ := ⟨(), rfl, trivial⟩

/-- A slice holds the items in a tree of the shape. -/
structure SliceSeekAggregate.Holds (aggregate : SliceSeekAggregate T S) (done leaf : List T) :
    Prop where
  valid : Valid aggregate.tree
  tree : aggregate.tree.toList = done
  items : aggregate.leafItems = leaf
  summaries : aggregate.leafItemSummaries = leaf.map Item.summary
  total : aggregate.leafSummary = sum (leaf.map Item.summary)

theorem collects_slice : Collects (SliceSeekAggregate.Holds (T := T) (S := S)) where
  pushTree := by
    intro aggregate done height tree hholds htree
    obtain ⟨tree', hrun, hvalid, hitems⟩ := append_spec hholds.valid htree.valid
    refine ⟨{ aggregate with tree := tree' }, ?_, hvalid, ?_, hholds.items, hholds.summaries,
      hholds.total⟩
    · simp only [pushTree, hrun, Option.map_some]
    · rw [hitems, hholds.tree]
  pushItem := by
    intro aggregate done leaf item hholds hroom
    refine ⟨_, if_pos (by rwa [hholds.items]), hholds.valid, hholds.tree, ?_, ?_, ?_⟩
    · rw [hholds.items]
    · rw [hholds.summaries, map_append, map_singleton]
    · rw [hholds.total, map_append, sum_append _ (by simp), map_singleton, sum_singleton]
  endLeaf := by
    intro aggregate done leaf hholds hfits
    have hleaf : Valid (.leaf aggregate.leafSummary aggregate.leafItems
        aggregate.leafItemSummaries : SumTree T S) := by
      rw [hholds.total, hholds.items, hholds.summaries]
      cases leaf with
      | nil => exact valid_new
      | cons item leaf => exact (Shaped.leaf_of (by simp) hfits rfl).valid
    obtain ⟨tree', hrun, hvalid, hitems⟩ := append_spec hholds.valid hleaf
    refine ⟨⟨tree', [], [], 0⟩, ?_, hvalid, ?_, rfl, rfl, rfl⟩
    · simp only [endLeaf, hrun, Option.map_some]
    · rw [hitems, hholds.tree, toList_leaf, hholds.items]

/-- A summary holds the sum of the items. -/
def SummarySeekAggregate.Holds (aggregate : SummarySeekAggregate D) (done leaf : List T) : Prop :=
  aggregate.output = positionOf D (done ++ leaf)

theorem collects_summary : Collects (SummarySeekAggregate.Holds (T := T) (D := D)) where
  pushTree := by
    intro aggregate done height tree hholds htree
    refine ⟨_, rfl, ?_⟩
    rw [SummarySeekAggregate.Holds, append_nil] at hholds ⊢
    rw [hholds, htree.addSummary_positionOf]
  pushItem := by
    intro aggregate done leaf item hholds _
    refine ⟨_, rfl, ?_⟩
    rw [SummarySeekAggregate.Holds] at hholds ⊢
    rw [hholds, ← append_assoc, positionOf_append_singleton]
  endLeaf := by
    intro aggregate done leaf hholds _
    refine ⟨_, rfl, ?_⟩
    rw [SummarySeekAggregate.Holds] at hholds ⊢
    rw [hholds, append_nil]

theorem seekLeaf_spec (hcollects : Collects holds) {items : List T} :
    ∀ {index : Nat} {before done leaf : List T} {state : Seeking A D},
      state.position = positionOf D before → holds state.aggregate done leaf →
      leaf.length + items.length ≤ 2 * treeBase → ∃ state' found,
          seekLeaf target bias index items (items.map Item.summary) state = some (state', found) ∧
            Sought holds target bias before (done ++ leaf) items state' ∧
            ((found = none ∧ skipped target bias (positionOf D before) items = items) ∨ (found =
                  some (index + (skipped target bias (positionOf D before) items).length) ∧
                skipped target bias (positionOf D before) items ≠ items)) := by
  induction items with
  | nil =>
    intro index before done leaf state hposition hholds hfits
    obtain ⟨aggregate, hrun, hholds'⟩ := hcollects.endLeaf hholds (by simpa using hfits)
    refine ⟨⟨state.position, aggregate⟩, none, ?_, .nil hposition hholds', .inl ⟨rfl, rfl⟩⟩
    rw [seekLeaf, hrun, Option.map_some]
    simp
  | cons item items ih =>
    intro index before done leaf state hposition hholds hfits
    rw [length_cons] at hfits
    by_cases hpast : isPast target bias
        (addSummary (positionOf D before) (Item.summary item)) = true
    · obtain ⟨aggregate, hrun, hholds'⟩ := hcollects.pushItem item hholds (by omega)
      have hone : skipped target bias (positionOf D before) [item] = [item] := by
        rw [skipped, if_pos hpast, skipped_nil]
      have hall : skipped target bias (positionOf D before) (item :: items) =
          item :: skipped target bias (positionOf D (before ++ [item])) items := by
        rw [skipped, if_pos hpast, positionOf_append_singleton]
      have hmoved : (⟨addSummary (positionOf D before) (Item.summary item),
          aggregate⟩ : Seeking A D).position = positionOf D (before ++ [item]) :=
        (positionOf_append_singleton _ _).symm
      obtain ⟨state', found, hseek, hsought, hfound⟩ := @ih (index + 1) _ _ _ _ hmoved hholds'
        (by rw [length_append, length_singleton]; omega)
      rw [← append_assoc] at hsought
      refine ⟨state', found, ?_, hsought.append hone, ?_⟩
      · rw [map_cons, seekLeaf, hposition]
        simp only [hpast, if_true, hrun]
        exact hseek
      · rw [hall]
        rcases hfound with ⟨hnone, heq⟩ | ⟨hsome, hne⟩
        · exact .inl ⟨hnone, by rw [heq]⟩
        · refine .inr ⟨?_, fun heq => hne (cons_eq_cons.mp heq).2⟩
          rw [hsome, length_cons]
          congr 1
          omega
    · obtain ⟨aggregate, hrun, hholds'⟩ := hcollects.endLeaf hholds (by omega)
      have hnone : skipped target bias (positionOf D before) (item :: items) = [] := by
        rw [skipped, if_neg hpast]
      refine ⟨⟨state.position, aggregate⟩, some index, ?_, ⟨?_, ?_⟩, .inr ⟨?_, ?_⟩⟩
      · rw [map_cons, seekLeaf, hposition]
        simp only [hpast, hrun, Option.map_some, false_eq_true, if_false]
      · rw [hnone, append_nil, hposition]
      · rwa [hnone, append_nil]
      · rw [hnone, length_nil, Nat.add_zero]
      · rw [hnone]
        exact (cons_ne_nil item items).symm

/-- The seek in a tree that has just been entered. -/
def SeeksIn (holds : A → List T → List T → Prop) (target : SeekTarget D) (bias : Bias)
    (tree : SumTree T S) : Prop :=
  ∀ {before after done : List T} {state : Seeking A D},
    Descending target (before ++ tree.toList ++ after) →
    state.position = positionOf D before → holds state.aggregate done [] → ∃ state' found,
        seekTree target bias (positionOf D before) tree state = some (state', found) ∧
          Sought holds target bias before done tree.toList state' ∧
          Stopped target bias tree before after before tree.toList found

section

variable (hcollects : Collects holds)

include hcollects

/-- The children from an index on: those in front are `left`. -/
theorem seekChildren_spec {height own : Nat} {summary : S}
    {childSummaries : List S} {right : List (SumTree T S)} :
    ∀ {left : List (SumTree T S)} {before after done : List T} {state : Seeking A D},
      (∀ child ∈ right, Shaped height child ∧ SeeksIn holds target bias child) →
      Descending target (before ++ (left ++ right).flatMap toList ++ after) →
      state.position = positionOf D (before ++ left.flatMap toList) →
      holds state.aggregate done [] → ∃ state' found,
          seekChildren target bias (.internal own summary childSummaries (left ++ right))
              left.length (positionOf D (before ++ left.flatMap toList)) right
              (right.map SumTree.summary) state = some (state', found) ∧
            Sought holds target bias (before ++ left.flatMap toList) done
              (right.flatMap toList) state' ∧
            Stopped target bias (.internal own summary childSummaries (left ++ right)) before after
              (before ++ left.flatMap toList) (right.flatMap toList) found := by
  induction right with
  | nil =>
    intro left before after done state _ _ hposition hholds
    exact ⟨state, none, by rw [map_nil, seekChildren]; simp, .nil hposition hholds, .whole rfl⟩
  | cons child right ih =>
    intro left before after done state hchildren hdescending hposition hholds
    obtain ⟨hshaped, hseeks⟩ := hchildren child mem_cons_self
    have hright := fun other hother => hchildren other (mem_cons_of_mem child hother)
    have hitems : before ++ (left ++ child :: right).flatMap toList ++ after =
        before ++ left.flatMap toList ++ child.toList ++ (right.flatMap toList ++ after) := by
      simp
    have hmoved : left ++ child :: right = left ++ [child] ++ right := by simp
    have hlength : left.length + 1 = (left ++ [child]).length := by simp
    have hfront : before ++ (left ++ [child]).flatMap toList =
        before ++ left.flatMap toList ++ child.toList := by simp
    have hend := @Shaped.addSummary_positionOf T S D _ _ _ _ _ hshaped
      (before ++ left.flatMap toList)
    -- the children after this one, when it is left behind
    have hnext : ∀ {done' : List T} {next : Seeking A D},
        next.position = positionOf D (before ++ left.flatMap toList ++ child.toList) →
        holds next.aggregate done' [] →
        skipped target bias (positionOf D (before ++ left.flatMap toList)) child.toList =
          child.toList →
        done' = done ++ child.toList → ∃ state' found,
            seekChildren target bias (.internal own summary childSummaries
                (left ++ child :: right)) (left.length + 1)
                (positionOf D (before ++ left.flatMap toList ++ child.toList)) right
                (right.map SumTree.summary) next = some (state', found) ∧
              Sought holds target bias (before ++ left.flatMap toList) done
                ((child :: right).flatMap toList) state' ∧
              Stopped target bias (.internal own summary childSummaries
                (left ++ child :: right)) before after (before ++ left.flatMap toList)
                ((child :: right).flatMap toList) found := by
      rintro done' next hnextPosition hnextHolds hskip rfl
      rw [hmoved] at hdescending ⊢
      rw [← hfront] at hnextPosition ⊢
      rw [hlength]
      obtain ⟨state', found, hrun, hsought, hstopped⟩ :=
        ih hright hdescending hnextPosition hnextHolds
      rw [hfront] at hsought hstopped
      refine ⟨state', found, hrun, ?_, ?_⟩
      · rw [flatMap_cons]
        exact hsought.append hskip
      · rw [flatMap_cons]
        exact hstopped.append hskip
    rw [map_cons, seekChildren, hposition, hend]
    by_cases hpast : isPast target bias
        (positionOf D (before ++ left.flatMap toList ++ child.toList)) = true
    · have hskip := skipped_of_isPast (hitems ▸ hdescending) hpast
      obtain ⟨aggregate, hpush, hholds'⟩ := hcollects.pushTree hholds hshaped
      simp only [hpast, if_true, hpush]
      exact hnext rfl hholds' hskip rfl
    · simp only [hpast, false_eq_true, if_false]
      obtain ⟨state', found, hrun, hsought, hstopped⟩ :=
        hseeks (hitems ▸ hdescending) hposition hholds
      rw [hrun]
      cases hstopped with
      | whole all =>
        have hposition' := hsought.position
        have haggregate := hsought.aggregate
        rw [all] at hposition' haggregate
        simp only [hposition']
        exact hnext hposition' haggregate all rfl
      | @inside entries item back more stands =>
        have hin : Stopped target bias (.internal own summary childSummaries (left ++ child ::
            right)) before after (before ++ left.flatMap toList) child.toList (some (entries ++
            [⟨.internal own summary childSummaries (left ++ child :: right), left.length, positionOf
            D (before ++ left.flatMap toList)⟩])) :=
          .inside more (Path.root.child.stands stands)
        exact ⟨state', _, rfl, hsought.append_of_ne more _, hin.append_of_ne more _⟩

/-- A leaf read from its beginning or from further on: the items in front are `left`. -/
theorem seekLeaf_stops {summary : S} {itemSummaries : List S}
    {left right : List T} {before after done : List T} {state : Seeking A D} {position : D}
    (hfits : (left ++ right).length ≤ 2 * treeBase)
    (hposition : state.position = positionOf D (before ++ left))
    (hholds : holds state.aggregate done []) :
    ∃ state' found, (seekLeaf target bias left.length right (right.map Item.summary) state).map
          (fun result => (result.1, result.2.map fun index =>
            [(⟨.leaf summary (left ++ right) itemSummaries, index, position⟩ :
              StackEntry T S D)])) = some (state', found) ∧
        Sought holds target bias (before ++ left) done right state' ∧
        Stopped target bias (.leaf summary (left ++ right) itemSummaries) before after
          (before ++ left) right found := by
  rw [length_append] at hfits
  obtain ⟨state', found, hrun, hsought, hfound⟩ :=
    @seekLeaf_spec T S D A _ _ _ holds target bias _ hcollects right left.length _ _ [] _ hposition
      hholds (by rw [length_nil]; omega)
  rw [append_nil] at hsought
  refine ⟨state', _, by rw [hrun, Option.map_some], hsought, ?_⟩
  rcases hfound with ⟨rfl, hwhole⟩ | ⟨rfl, hmore⟩
  · exact .whole hwhole
  · obtain ⟨rest, hrest⟩ := skipped_isPrefix (positionOf D (before ++ left)) right
    generalize hskip : skipped target bias (positionOf D (before ++ left)) right = skip at *
    obtain ⟨item, back, rfl⟩ : ∃ item back, rest = item :: back := by
      refine exists_cons_of_ne_nil fun hnil => hmore ?_
      rw [← hrest, hnil, append_nil]
    have hstands : Stands (.leaf summary (left ++ skip ++ item :: back) itemSummaries) before after
        [(⟨.leaf summary (left ++ skip ++ item :: back) itemSummaries, (left ++ skip).length,
          position⟩ : StackEntry T S D)] (before ++ (left ++ skip)) item (back ++ after) :=
      .leaf .root
    rw [append_assoc, hrest, length_append, ← append_assoc] at hstands
    rw [← hskip] at hmore hstands ⊢
    exact .inside hmore hstands

theorem seekTree_spec {height : Nat} {tree : SumTree T S}
    (htree : Shaped height tree) : SeeksIn holds target bias tree := by
  induction htree with
  | leaf filled fits summaries total =>
    intro before after done state hdescending hposition hholds
    rename_i summary items itemSummaries
    rw [← append_nil before] at hposition
    have hleaf := @seekLeaf_stops T S D A _ _ _ holds target bias _ hcollects summary
      itemSummaries [] items before after done state (positionOf D before) fits hposition hholds
    subst summaries
    rw [append_nil] at hleaf
    exact hleaf
  | @internal height summary childSummaries childTrees filled fits children summaries total ih =>
    intro before after done state hdescending hposition hholds
    rw [toList_internal] at hdescending ⊢
    rw [← append_nil before] at hposition
    have hchildren := @seekChildren_spec T S D A _ _ _ holds target bias _ hcollects height
      (height + 1) summary childSummaries childTrees [] before after done state
      (fun child hchild => ⟨children child hchild, ih child hchild⟩) hdescending hposition hholds
    subst summaries
    rw [flatMap_nil, append_nil] at hchildren
    exact hchildren

end

/-! The loop over the whole stack. -/

variable {root : SumTree T S} (hcollects : Collects holds)

include hcollects

variable {height : Nat} (hroot : Shaped height root)

include hroot

variable (hdescending : Descending target root.toList)

include hdescending

/-- Ascending out of a tree that was skipped. -/
theorem seekStack_ascending {tree : SumTree T S}
    {before after : List T} {stack : List (StackEntry T S D)}
    (path : Path root [] [] stack tree before after) :
    ∀ {done : List T} {state : Seeking A D},
      state.position = positionOf D (before ++ tree.toList) → holds state.aggregate done [] →
        ∃ state' found, Passed holds target bias root (before ++ tree.toList) done after
          (seekStack target bias true stack state) state' found := by
  induction path with
  | root =>
    intro done state hposition hholds
    exact ⟨state, none, rfl, .nil hposition hholds, .whole rfl⟩
  | @child stack own summary childSummaries left right child before after path ih =>
    intro done state hposition hholds
    obtain ⟨level, hshaped⟩ := path.shaped hroot
    have hitems := path.toList_eq
    rw [nil_append, append_nil] at hitems
    rw [hitems, toList_internal] at hdescending
    cases hshaped with
    | @internal below _ _ _ filled fits children summaries total =>
      have hnode : left ++ child :: right = left ++ [child] ++ right := by simp
      have hfront : before ++ (left ++ [child]).flatMap toList =
          before ++ left.flatMap toList ++ child.toList := by simp
      have hlength : (left ++ [child]).length = left.length + 1 := by simp
      have hdrop : (left ++ child :: right).drop (left.length + 1) = right := by
        rw [hnode, ← hlength, drop_left]
      have hsums : childSummaries.drop (left.length + 1) = right.map SumTree.summary := by
        rw [summaries, ← map_drop, hdrop]
      have hchildren : ∀ other ∈ right, Shaped below other ∧ SeeksIn holds target bias other := by
        intro other hother
        have hshaped := children other (by simp [hother])
        exact ⟨hshaped, seekTree_spec hcollects hshaped⟩
      obtain ⟨state', found, hrun, hsought, hstopped⟩ :=
        @seekChildren_spec T S D A _ _ _ holds target bias _ hcollects below (below + 1)
          summary childSummaries right (left ++ [child]) before after done state hchildren
          (hnode ▸ hdescending) (by rw [hfront, hposition]) hholds
      rw [← hnode, hfront, hlength] at hrun
      rw [hfront] at hsought
      rw [← hnode, hfront] at hstopped
      rw [seekStack]
      simp only [if_true, hdrop, hsums, hposition, hrun]
      cases hfound : found with
      | some entries =>
        exact ⟨state', _, .of_part hfound hsought (hstopped.outside path)⟩
      | none =>
        subst hfound
        cases hstopped with
        | whole all =>
          have hposition' := hsought.position
          have haggregate := hsought.aggregate
          rw [all] at hposition' haggregate
          have hall : before ++ left.flatMap toList ++ child.toList ++ right.flatMap toList =
                before ++ (SumTree.internal (below + 1) summary childSummaries
                  (left ++ child :: right)).toList := by
            simp
          rw [hall] at hposition'
          obtain ⟨state'', found, hpassed⟩ := ih hposition' haggregate
          rw [← hall] at hpassed
          exact ⟨state'', found, hpassed.run, hpassed.sought.append all, hpassed.stopped.append all⟩

/-- From the item the cursor stands at. -/
theorem seekStack_stands {front back done : List T} {item : T} {stack : List (StackEntry T S D)}
    (stands : Stands root [] [] stack front item back) {ascending : Bool} {state : Seeking A D}
    (hposition : state.position = positionOf D front) (hholds : holds state.aggregate done []) :
    ∃ state' found, Passed holds target bias root front done (item :: back)
      (seekStack target bias ascending stack state) state' found := by
  cases stands with
  | @leaf stack summary itemSummaries left right before after _ position path =>
    obtain ⟨level, hshaped⟩ := path.shaped hroot
    cases hshaped with
    | leaf filled fits summaries total =>
      have hdrop : (left ++ item :: right).drop left.length = item :: right := drop_left
      have hsums : itemSummaries.drop left.length = (item :: right).map Item.summary := by
        rw [summaries, ← map_drop, hdrop]
      obtain ⟨state', found, hrun, hsought, hstopped⟩ :=
        @seekLeaf_stops T S D A _ _ _ holds target bias _ hcollects summary itemSummaries left
          (item :: right) before after done state position fits hposition hholds
      rw [seekStack]
      simp only [hdrop, hsums, hrun]
      cases hfound : found with
      | some entries =>
        exact ⟨state', _, .of_part hfound hsought (hstopped.outside path)⟩
      | none =>
        subst hfound
        cases hstopped with
        | whole all =>
          have hposition' := hsought.position
          have haggregate := hsought.aggregate
          rw [all, append_assoc] at hposition'
          rw [all] at haggregate
          obtain ⟨state'', found, hpassed⟩ :=
            seekStack_ascending hcollects hroot hdescending path hposition' haggregate
          rw [toList_leaf, ← append_assoc] at hpassed
          exact ⟨state'', found, hpassed.run, hpassed.sought.append all, hpassed.stopped.append all⟩

/-- From a new entry for the root. -/
theorem seekStack_root {done : List T}
    {state : Seeking A D} (hposition : state.position = positionOf D ([] : List T))
    (hholds : holds state.aggregate done []) :
    ∃ state' found, Passed holds target bias root [] done root.toList
      (seekStack target bias false [⟨root, 0, zero S⟩] state) state' found := by
  have hseek : seekStack target bias false [⟨root, 0, zero S⟩] state = (seekTree target
      bias (zero S) root state).map fun result => (result.1, result.2.getD []) := by
    cases root with
    | leaf summary items itemSummaries =>
      rw [seekStack, seekTree]
      simp only [drop_zero]
      rcases seekLeaf target bias 0 items itemSummaries state with _ | ⟨state', _ | index⟩
      · rfl
      · rfl
      · rfl
    | internal own summary childSummaries childTrees =>
      rw [seekStack, seekTree]
      simp only [drop_zero, false_eq_true, if_false]
      rcases seekChildren target bias (.internal own summary childSummaries childTrees) 0
        (zero S) childTrees childSummaries state with _ | ⟨state', _ | entries⟩
      · rfl
      · rfl
      · simp
  obtain ⟨state', found, hrun, hsought, hstopped⟩ :=
    @seekTree_spec T S D A _ _ _ holds target bias _ hcollects height root hroot [] [] done state
      (by rwa [append_nil]) hposition hholds
  have hzero : (zero S : D) = positionOf D ([] : List T) := rfl
  rw [hzero, hrun] at hseek
  exact ⟨state', found, hseek, hsought, hstopped⟩

end OpenGpui.SumTrees
