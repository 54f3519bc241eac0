/-
When sorting sorts.  The comparison of rows, column by column, orders rows exactly when no
three that tie in the columns before straddle in one; where no three of a level do, the
level is sorted.
-/
import OpenGpui.UiCore.TablePipeline

namespace OpenGpui.UiCore

open Forest TableCellValue TableResolvedRow List TableSort TableRow

variable {Number : Type} [TableScalars Number]

section Comparing

/-- The cell that the sort compares. -/
def TableSort.cell (sort : TableSort) (row : TableResolvedRow Number) : TableCellValue Number :=
  (row.cell sort.column).getD .empty

/-- The cells straddle, the first two in the order that the sort asks for. -/
def TableSort.Straddles (sort : TableSort) (first second third : TableResolvedRow Number) : Prop :=
  match sort.direction with
  | .ascending => (sort.cell first).Straddles (sort.cell second) (sort.cell third)
  | .descending => (sort.cell second).Straddles (sort.cell first) (sort.cell third)

/-- The rows tie in the sorts before one in which their cells straddle.  Where the third
ties with another in that one too, the later sorts may not put the two the other way. -/
def Straddle : List TableSort → (first second third : TableResolvedRow Number) → Prop
  | [], _, _, _ => False
  | sort :: later, first, second, third =>
    (sort.Straddles first second third ∧
      (sort.compare second third = .eq → (compareBySorts later second third).isLE) ∧
        (sort.compare third first = .eq → (compareBySorts later third first).isLE)) ∨
      (sort.compare first second = .eq ∧ sort.compare second third = .eq ∧
        sort.compare third first = .eq) ∧ Straddle later first second third

/-- No three of the rows straddle. -/
def Unstraddled (sorting : List TableSort) (rows : List (TableResolvedRow Number)) : Prop :=
  ∀ first ∈ rows, ∀ second ∈ rows, ∀ third ∈ rows, ¬Straddle sorting first second third

instance : (sort : TableSort) → (first second third : TableResolvedRow Number) →
    Decidable (sort.Straddles first second third)
  | ⟨_, .ascending⟩, _, _, _ | ⟨_, .descending⟩, _, _, _ =>
    inferInstanceAs (Decidable (TableCellValue.Straddles _ _ _))

instance decidableStraddle : (sorting : List TableSort) →
    (first second third : TableResolvedRow Number) → Decidable (Straddle sorting first second third)
  | [], _, _, _ => .isFalse id
  | _ :: later, first, second, third =>
    have := decidableStraddle later first second third
    inferInstanceAs (Decidable ((_ ∧ (_ → _) ∧ (_ → _)) ∨ (_ ∧ _ ∧ _) ∧ _))

instance (sorting : List TableSort) (rows : List (TableResolvedRow Number)) :
    Decidable (Unstraddled sorting rows) :=
  inferInstanceAs (Decidable (∀ _ ∈ _, ∀ _ ∈ _, ∀ _ ∈ _, _))

variable {first second third : TableResolvedRow Number}

theorem circles_compareSort_iff {sort : TableSort} :
    Circles sort.compare first second third ↔ sort.Straddles first second third ∨
      sort.Straddles second third first ∨ sort.Straddles third first second := by
  obtain ⟨column, direction⟩ := sort
  cases direction with
  | ascending => exact circles_cmpForSort_iff
  | descending =>
    -- the same circle, the other way round
    have hflip : (compare ⟨column, .descending⟩ : TableResolvedRow Number → _ → _) =
        fun left right => compare ⟨column, .ascending⟩ right left := by
      funext left right
      exact (cmpForSort_swap _ _).symm
    rw [hflip, circles_flip]
    have hcells := @circles_cmpForSort_iff Number _ (cell ⟨column, .ascending⟩ third)
      (cell ⟨column, .ascending⟩ second) (cell ⟨column, .ascending⟩ first)
    exact hcells.trans (by tauto)

theorem compareSort_of_straddles {sort : TableSort} (h : sort.Straddles first second third) :
    sort.compare first second = .lt := by
  obtain ⟨column, direction⟩ := sort
  cases direction with
  | ascending => exact cmpForSort_of_straddles h
  | descending => exact (cmpForSort_swap _ _).symm.trans (cmpForSort_of_straddles h)

theorem circles_of_straddle {sorting : List TableSort} (h : Straddle sorting first second third) :
    Circles (compareBySorts sorting) first second third := by
  induction sorting with
  | nil => exact h.elim
  | cons sort later ih =>
    apply circles_then.mpr
    rcases h with ⟨hcells, hsecond, hthird⟩ | ⟨htie, hlater⟩
    · refine .inl ⟨circles_compareSort_iff.mpr (.inl hcells), ?_, hsecond, hthird⟩
      intro heq
      rw [compareSort_of_straddles hcells] at heq
      cases heq
    · exact .inr ⟨htie, ih hlater⟩

/-- Rows circle exactly when they straddle, whichever of them is given first. -/
theorem circles_compareBySorts_iff {sorting : List TableSort} :
    Circles (compareBySorts sorting) first second third ↔ Straddle sorting first second third ∨
      Straddle sorting second third first ∨ Straddle sorting third first second := by
  constructor
  · intro hround
    induction sorting with
    | nil =>
      exact absurd hround (not_circles_cmp fun row : TableResolvedRow Number =>
        row.identity.tieKey)
    | cons sort later ih =>
      rcases circles_then.mp hround with ⟨hcells, hfirst, hsecond, hthird⟩ |
        ⟨⟨hfirst, hsecond, hthird⟩, hlater⟩
      · rcases circles_compareSort_iff.mp hcells with h | h | h
        · exact .inl (.inl ⟨h, hsecond, hthird⟩)
        · exact .inr (.inl (.inl ⟨h, hthird, hfirst⟩))
        · exact .inr (.inr (.inl ⟨h, hfirst, hsecond⟩))
      · rcases ih hlater with h | h | h
        · exact .inl (.inr ⟨⟨hfirst, hsecond, hthird⟩, h⟩)
        · exact .inr (.inl (.inr ⟨⟨hsecond, hthird, hfirst⟩, h⟩))
        · exact .inr (.inr (.inr ⟨⟨hthird, hfirst, hsecond⟩, h⟩))
  · rintro (h | h | h)
    · exact circles_of_straddle h
    · exact (circles_of_straddle h).rotate.rotate
    · exact (circles_of_straddle h).rotate

theorem compareBySorts_swap (sorting : List TableSort) (left right : TableResolvedRow Number) :
    compareBySorts sorting right left = (compareBySorts sorting left right).swap := by
  induction sorting with
  | nil => exact (cmp_swap _ _).symm
  | cons sort later ih =>
    have hsort : sort.compare right left = (sort.compare left right).swap := by
      obtain ⟨column, direction⟩ := sort
      cases direction with
      | ascending => exact cmpForSort_swap _ _
      | descending => exact congrArg Ordering.swap (cmpForSort_swap _ _)
    rw [compareBySorts, compareBySorts, hsort, ih, Ordering.swap_then]

/-- The comparison orders rows exactly when no three of them straddle. -/
theorem totalPreorderOn_compareRows_iff {sorting : List TableSort}
    {rows : List (TableResolvedRow Number)} :
    TotalPreorderOn (compareRows sorting) { row | row ∈ rows } ↔ Unstraddled sorting rows := by
  cases sorting with
  | nil => exact iff_of_true ⟨fun _ _ _ _ => rfl, fun _ _ _ _ _ _ _ _ => rfl⟩ fun _ _ _ _ _ _ => id
  | cons sort later =>
    refine (totalPreorderOn_iff (compareBySorts_swap (sort :: later))).trans ?_
    simp only [circles_compareBySorts_iff, not_or, Set.mem_ofPred_eq]
    constructor
    · intro h first hfirst second hsecond third hthird
      exact (h first hfirst second hsecond third hthird).1
    · intro h first hfirst second hsecond third hthird
      exact ⟨h _ hfirst _ hsecond _ hthird, h _ hsecond _ hthird _ hfirst,
        h _ hthird _ hfirst _ hsecond⟩

end Comparing

section Levels

/-- No row of the level is greater than one after it. -/
def SortedLevel (sorting : List TableSort) (rows : List (TableResolvedRow Number)) : Prop :=
  rows.Pairwise fun earlier later => compareRows sorting earlier later ≠ .gt

/-- What sorting promises of a table: the comparison orders the rows of every level, and
every sort gives these levels permuted and sorted. -/
structure SortsTable (state : TableState Number) : Prop where
  order : state.groupedNodes.EveryLevel fun rows =>
    TotalPreorderOn (compareRows state.sorting) { row | row ∈ rows }
  levels : ∀ sort : SliceSort (TableResolvedRow Number × TableRowNodes Number),
    Forest.Rearranged state.groupedNodes.trees (state.sortedNodes sort).trees ∧
      (state.sortedNodes sort).EveryLevel (SortedLevel state.sorting)

variable (sort : SliceSort (TableResolvedRow Number × TableRowNodes Number))
variable (state : TableState Number)

theorem everyLevel_sortNodes {nodes : TableRowNodes Number} (horder : nodes.EveryLevel fun rows =>
      TotalPreorderOn (compareRows state.sorting) { row | row ∈ rows }) :
    (state.sortNodes sort nodes).EveryLevel (SortedLevel state.sorting) := by
  apply everyLevel_sortLevels (state.levelSort_perm sort) _ horder
  intro level hlevel
  rw [SortedLevel, pairwise_map]
  by_cases hsorting : state.sorting.isEmpty = true
  · -- without a sort all rows are equal
    apply pairwise_of_forall
    intro earlier later
    rw [compareRows, if_pos hsorting]
    decide
  · rw [if_neg hsorting]
    exact sort.sorted _ level (hlevel.comap Prod.fst fun node => mem_map_of_mem)

/-- The comparison orders rows, and sorting sorts a table, exactly when no three rows, or
no three rows of one level, straddle. -/
theorem sortsTable_iff (hclient : state.sortingMode = .client) :
    (∀ rows : List (TableResolvedRow Number),
      TotalPreorderOn (compareRows state.sorting) { row | row ∈ rows } ↔
        Unstraddled state.sorting rows) ∧
    (SortsTable state ↔ state.groupedNodes.EveryLevel (Unstraddled state.sorting)) := by
  refine ⟨fun rows => totalPreorderOn_compareRows_iff, ?_⟩
  have hlevels : ∀ nodes : TableRowNodes Number, (nodes.EveryLevel fun rows =>
      TotalPreorderOn (compareRows state.sorting) { row | row ∈ rows }) ↔
        nodes.EveryLevel (Unstraddled state.sorting) := by
    intro nodes
    simp only [totalPreorderOn_compareRows_iff]
  rw [← hlevels]
  constructor
  · exact SortsTable.order
  · intro horder
    refine ⟨horder, fun sort => ?_⟩
    have hsorted : state.sortedNodes sort = state.sortNodes sort state.groupedNodes := by
      rw [TableState.sortedNodes, hclient]
      rfl
    rw [hsorted]
    exact ⟨rearranged_sortLevels (state.levelSort_perm sort) _,
      everyLevel_sortNodes sort state horder⟩

/-- Rows of different ranks, and then a column of 9, 10 and a text. -/
def rankedTable : TableState Int :=
  let row (id : String) (rank : Int) (size : TableCellValue Int) :=
    ((new id).withCell "rank" (.number rank)).withCell "size" size
  { TableState.new (.cons (row "nine" 3 (.number 9)) .nil (.cons (row "ten" 1 (.number 10)) .nil
      (.cons (row "text" 2 (.text "5 kg")) .nil .nil))) 1 with
    sorting := [⟨"rank", .descending⟩, ⟨"size", .ascending⟩] }

theorem rankedTable_is_sorted : rankedTable.sortingMode = .client ∧ SortsTable rankedTable :=
  ⟨rfl, (sortsTable_iff rankedTable rfl).2.mpr (by decide)⟩

/-- Rows each of which is greater than another are sorted in no order. -/
theorem not_sortedLevel_of_cycle {sorting : List TableSort}
    {rows sorted : List (TableResolvedRow Number)} (hrows : rows ≠ [])
    (hcycle : ∀ row ∈ rows, ∃ other ∈ rows, compareRows sorting row other = .gt ∧
      compareRows sorting other row ≠ .gt)
    (hperm : sorted.Perm rows) : ¬SortedLevel sorting sorted := by
  intro hsorted
  cases sorted with
  | nil => exact hrows hperm.nil_eq.symm
  | cons row rest =>
    obtain ⟨other, hother, hgreater, hless⟩ := hcycle row (hperm.subset mem_cons_self)
    rcases mem_cons.mp (hperm.symm.subset hother) with rfl | hrest
    · exact hless hgreater
    · exact rel_of_pairwise_cons hsorted hrest hgreater

end Levels

/-- A column with 9, 10 and a text whose first digit is between theirs. -/
def mixedColumnTable : TableState Int :=
  { TableState.new (.cons ((new "nine").withCell "size" (.number 9)) .nil
      (.cons ((new "ten").withCell "size" (.number 10)) .nil
        (.cons ((new "text").withCell "size" (.text "5 kg")) .nil .nil))) 1 with
    sorting := [⟨"size", .ascending⟩] }

theorem mixedColumnTable_goes_round : ∀ row ∈ mixedColumnTable.groupedNodes.level,
    ∃ other ∈ mixedColumnTable.groupedNodes.level,
      compareRows mixedColumnTable.sorting row other = .gt ∧
        compareRows mixedColumnTable.sorting other row ≠ .gt := by
  decide

theorem mixedColumnTable_is_not_sorted : mixedColumnTable.sortingMode = .client ∧
    ¬TotalPreorderOn (compareRows mixedColumnTable.sorting)
      { row | row ∈ mixedColumnTable.groupedNodes.level } ∧
        ∀ sort, ¬(mixedColumnTable.sortedNodes sort).EveryLevel
          (SortedLevel mixedColumnTable.sorting) := by
  have hrows : mixedColumnTable.groupedNodes.level ≠ [] := by
    decide
  have hlevel : ∀ sort, ¬(mixedColumnTable.sortedNodes sort).EveryLevel
      (SortedLevel mixedColumnTable.sorting) := by
    intro sort hsorted
    exact not_sortedLevel_of_cycle hrows mixedColumnTable_goes_round
      (level_sortLevels_perm (mixedColumnTable.levelSort_perm sort) _) hsorted.1
  refine ⟨rfl, ?_, hlevel⟩
  intro horder
  -- an order would let insertion sort the rows
  have hsorted := (SliceSort.insertion _).sorted _ mixedColumnTable.groupedNodes.level horder
  exact not_sortedLevel_of_cycle hrows mixedColumnTable_goes_round
    ((SliceSort.insertion _).perm _ _) hsorted

end OpenGpui.UiCore
