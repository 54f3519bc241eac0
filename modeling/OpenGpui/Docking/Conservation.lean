/-
Items are conserved: a step of a forest places what was placed before, without the item
it closes and with the item it opens.
-/
import OpenGpui.Docking.OpSteps

namespace OpenGpui.Docking

open DockTree SpaceTrees List FloatingTree

namespace SpaceTrees

variable {self : SpaceTrees} {key : DockNodeId} {f : DockTree → DockTree}

theorem leaves_rewrite_of_eq (hnodup : self.ids.Nodup)
    (hsame : ∀ sub ∈ self.subtrees, sub.id = key → (f sub).leaves = sub.leaves) :
    (self.rewrite key f).leaves = self.leaves := by
  by_cases hkey : key ∈ self.ids
  · obtain ⟨sub, hsub, rfl⟩ := mem_ids_iff.mp hkey
    obtain ⟨before, after, hleaves, hrewrite⟩ := leaves_rewrite hnodup hsub
    rw [hrewrite, hsame sub hsub rfl, hleaves]
  · rw [rewrite_of_not_mem self f hkey]

theorem ids_rewrite_of_eq (hnodup : self.ids.Nodup)
    (hsame : ∀ sub ∈ self.subtrees, sub.id = key → (f sub).ids = sub.ids) :
    (self.rewrite key f).ids = self.ids := by
  by_cases hkey : key ∈ self.ids
  · obtain ⟨sub, hsub, rfl⟩ := mem_ids_iff.mp hkey
    obtain ⟨before, after, hids, hrewrite⟩ := ids_rewrite hnodup hsub
    rw [hrewrite, hsame sub hsub rfl, hids]
  · rw [rewrite_of_not_mem self f hkey]

end SpaceTrees

variable (fractions : List Scalar)

theorem DockTree.withFractions_leaves (tree : DockTree) :
    (tree.withFractions fractions).leaves = tree.leaves := by
  cases tree <;> simp [withFractions]

theorem DockTree.withFractions_ids (tree : DockTree) :
    (tree.withFractions fractions).ids = tree.ids := by
  cases tree <;> simp [withFractions]

namespace DockForest

variable {forest after : DockForest} {space : DockSpaceId} {item : DockItemId}

theorem Proper.setFractions (h : forest.Proper) (split : DockNodeId) (fractions : List Scalar) :
    (forest.setFractions split fractions).Proper := by
  apply h.of_subperm
  intro space
  have hids : (forest.setFractions split fractions space).ids = (forest space).ids :=
    ids_rewrite_of_eq (h.nodup space) fun sub _ _ => withFractions_ids fractions sub
  rw [hids]

theorem Proper.leaves_setFractions (h : forest.Proper) (split : DockNodeId)
    (fractions : List Scalar) (space : DockSpaceId) :
    (forest.setFractions split fractions space).leaves = (forest space).leaves :=
  leaves_rewrite_of_eq (h.nodup space) fun sub _ _ => withFractions_leaves fractions sub

/-- Other fractions move no item. -/
theorem Resizes.leaves_eq (h : forest.Resizes after) (hproper : forest.Proper)
    (space : DockSpaceId) : (after space).leaves = (forest space).leaves := by
  induction h with
  | refl forest => rfl
  | change hshares hlen hrest ih =>
    rw [ih (hproper.setFractions _ _), hproper.leaves_setFractions]

theorem placed_of_leaves_eq (h : ∀ space, (after space).leaves = (forest space).leaves) :
    after.Placed item ↔ forest.Placed item := by
  simp only [Placed, HasLeaf, h]

/-- What is taken out was placed. -/
theorem Detach.taken_placed {items : List DockItemId} (h : forest.Detach space items after)
    (hitem : item ∈ items) : forest.Placed item := by
  cases h with
  | @item tabs own selected taken index next hsub hindex =>
    obtain ⟨hlt, hfound, _⟩ := findIdx?_eq_some_iff_getElem.mp hindex
    have htaken : own[index] = taken := by simpa using hfound
    rw [mem_singleton.mp hitem, ← htaken]
    exact ⟨(tabs, own), hasLeaf_iff.mpr ⟨space, selected, hsub⟩, getElem_mem hlt⟩
  | @tabs tabs own selected hsub hroot =>
    exact ⟨(tabs, items), hasLeaf_iff.mpr ⟨space, selected, hsub⟩, hitem⟩
  | @root tabs own selected hroot =>
    have htree : DockTree.tabs tabs items selected ∈ (forest space).trees := by
      simp [trees, hroot]
    exact ⟨(tabs, items),
      hasLeaf_iff.mpr ⟨space, selected, DockGraph.Holds.tree_mem_subtrees htree⟩, hitem⟩
  | @floating index floating tree bounds hentry =>
    apply placed_iff.mpr
    refine ⟨space, mem_flatMap.mpr ⟨.floating floating tree, ?_, ?_⟩⟩
    · apply mem_append_right
      exact mem_map.mpr ⟨_, mem_of_getElem? hentry, rfl⟩
    · rwa [items_floating]

theorem placed_setFloatings {floatings : List FloatingTree}
    (hperm : (floatings.map tree).Perm ((forest space).floatings.map tree)) :
    (forest.setFloatings space floatings).Placed item ↔ forest.Placed item := by
  have hitems : item ∈ ({ forest space with floatings := floatings } : SpaceTrees).items ↔
      item ∈ (forest space).items := by
    exact ((hperm.append_left _).flatMap_right DockTree.items).mem_iff
  rw [setFloatings, placed_update, hitems, ← placed_iff_at space]

/-- A selection leaves every stack its items. -/
theorem Step.leaves_of_selectTab {tabs : DockNodeId}
    (h : forest.Step (.selectTab tabs item) after) (hproper : forest.Proper)
    (space : DockSpaceId) : (after space).leaves = (forest space).leaves := by
  cases h with
  | selectTab hitem hstacks =>
    apply leaves_rewrite_of_eq (hproper.nodup space)
    intro sub hsub hid
    obtain ⟨selected, rfl⟩ := hstacks space sub hsub hid
    simp
  | move early late hop | resize hop => cases hop

theorem ItemsDistinct.of_leaves_eq (h : forest.ItemsDistinct)
    (hleaves : ∀ space, (after space).leaves = (forest space).leaves) : after.ItemsDistinct := by
  have hitems : ∀ space, (after space).items = (forest space).items := by
    intro space
    rw [items_eq, items_eq, hleaves]
  constructor
  · intro space
    rw [hitems]
    exact h.nodup space
  · intro first second item hfirst hsecond
    rw [hitems] at hfirst hsecond
    exact h.apart hfirst hsecond

/-- Where the items are after a step. -/
theorem Step.placed {op : DockOp} (h : forest.Step op after) (hproper : forest.Proper)
    (hdistinct : forest.ItemsDistinct) (item : DockItemId) :
    after.Placed item ↔ match op with
      | .closeItem _ closed => forest.Placed item ∧ item ≠ closed
      | .openItem _ _ opened _ => forest.Placed item ∨ item = opened
      | _ => forest.Placed item := by
  cases h with
  | selectTab hchosen hstacks =>
    exact placed_of_leaves_eq ((Step.selectTab hchosen hstacks).leaves_of_selectTab hproper)
  | closeItem hdetach =>
    rw [placed_simplifySpace, hdetach.placed hproper hdistinct, mem_singleton]
  | openItem hnew hpayload hattach =>
    rw [hattach.placed hproper, hpayload, mem_singleton]
  | @move op source target items payload taken put early late hop hdetach hpayload hattach =>
    have hearly := (hdetach.proper hproper).simplifySpaces early
    have hmoved : (put.simplifySpaces late).Placed item ↔ forest.Placed item := by
      rw [placed_simplifySpaces, hattach.placed hearly, placed_simplifySpaces,
        hdetach.placed hproper hdistinct, hpayload]
      constructor
      · rintro (⟨hplaced, _⟩ | hitem)
        · exact hplaced
        · exact hdetach.taken_placed hitem
      · intro hplaced
        by_cases hitem : item ∈ items
        · exact .inr hitem
        · exact .inl ⟨hplaced, hitem⟩
    cases op with
    | closeItem space closed | openItem space tabs opened index => cases hop
    | _ => exact hmoved
  | setFloatingBounds hentry =>
    apply placed_setFloatings
    rw [map_tree_set hentry]
  | raiseFloating => exact placed_setFloatings ((DockGraph.moveToEnd_perm _ _).map _)
  | @resize op updates _ hop hresizes =>
    have hsame : after.Placed item ↔ forest.Placed item :=
      placed_of_leaves_eq (hresizes.leaves_eq hproper)
    cases op with
    | closeItem space closed | openItem space tabs opened index => cases hop
    | _ => exact hsame

end DockForest

namespace DockGraph

variable {self after : DockGraph} {forest : DockForest} {op : DockOp} {item : DockItemId}

/-- The items of all spaces, each as often as it is placed. -/
def placedItems (self : DockGraph) : List DockItemId := self.spaces.flatMap self.collectItemsInSpace

theorem Holds.mem_placedItems_iff (h : self.Holds forest) :
    item ∈ self.placedItems ↔ forest.Placed item := by
  simp only [placedItems, mem_flatMap, h.collectItemsInSpace_eq, DockForest.placed_iff]
  constructor
  · rintro ⟨space, _, hin⟩
    exact ⟨space, hin⟩
  · rintro ⟨space, hin⟩
    obtain ⟨tree, htree, _⟩ := mem_flatMap.mp hin
    exact ⟨space, h.mem_spaces htree, hin⟩

theorem Holds.placedItems_nodup (h : self.Holds forest) (hdistinct : forest.ItemsDistinct) :
    self.placedItems.Nodup := by
  have hspaces : (self.spaces.map fun space => space).Nodup := by
    rw [map_id']
    exact self.spaces_nodup
  apply nodup_flatMap_of_keys hspaces
  · intro space _
    rw [h.collectItemsInSpace_eq]
    exact hdistinct.nodup space
  · intro first _ second _ item hfirst hsecond
    rw [h.collectItemsInSpace_eq] at hfirst hsecond
    exact hdistinct.apart hfirst hsecond

/-- What an operation that succeeds did to the forest of a valid graph: nothing, or a step
to another valid forest. -/
theorem applyOpChecked_forest (h : self.Holds forest) (hvalid : forest.Valid) {changed : Bool}
    (hop : self.applyOpChecked op = .ok (changed, after)) :
    (after = self ∧ (self.keepsPlace op = true ∨ allowsNoop op = true)) ∨
      ∃ last, forest.Step op last ∧ after.Holds last ∧
        ((∃ tabs item, op = .selectTab tabs item) ∨ after.validate = .ok ()) := by
  obtain ⟨hvalidate, hcase⟩ := applyOpChecked_ok hop
  rcases hcase with ⟨tabs, item, rfl, hselect⟩ | ⟨_, hsame, hallows⟩ | ⟨_, _, hcommits⟩
  · simp only [validateOp, Checked.bind_eq_ok] at hvalidate
    obtain ⟨items, hitems, hcontains⟩ := hvalidate
    rw [requireTabsNode] at hitems
    split at hitems
    · next own selected hget =>
      cases hitems
      split at hcontains
      · cases hcontains
      · next hitem =>
        obtain ⟨last, hstep, hholds⟩ := selectTab_step h hget (by simpa using hitem) hselect
        exact .inr ⟨last, hstep, hholds, .inl ⟨tabs, item, rfl⟩⟩
    · cases hitems
    · cases hitems
  · exact .inl ⟨hsame, hallows⟩
  · obtain ⟨next, happly, rfl⟩ := hcommits.applied
    obtain ⟨last, hstep, hholds⟩ := applyOpUnchecked_step h hvalid hvalidate happly
    exact .inr ⟨last, hstep, hholds.finalizeCheckedMutation _, .inr hcommits.valid⟩

/-- A checked operation conserves the items of the graph, but for the one it closes or
opens. -/
theorem applyOpChecked_conserves_items {changed : Bool} (hvalid : self.validate = .ok ())
    (hop : self.applyOpChecked op = .ok (changed, after)) :
    match op with
    | .closeItem _ item => self.placedItems.Perm (item :: after.placedItems)
    | .openItem _ _ item _ => after.placedItems.Perm (item :: self.placedItems)
    | _ => after.placedItems.Perm self.placedItems := by
  obtain ⟨forest, h, hforest⟩ := validate_ok_iff.mp hvalid
  rcases applyOpChecked_forest h hforest hop with ⟨rfl, hnoop⟩ | ⟨last, hstep, hlast, hafter⟩
  · -- an operation that does nothing neither closes nor opens
    cases op with
    | closeItem space item | openItem space tabs item index =>
      exact absurd hnoop (by simp [keepsPlace, allowsNoop])
    | _ => exact List.Perm.refl _
  · have hbefore := h.placedItems_nodup hforest.items
    have hnodup : after.placedItems.Nodup := by
      rcases hafter with ⟨tabs, item, rfl⟩ | hvalidAfter
      · apply hlast.placedItems_nodup
        exact hforest.items.of_leaves_eq (hstep.leaves_of_selectTab h.proper)
      · obtain ⟨other, hother, hvalidOther⟩ := validate_ok_iff.mp hvalidAfter
        exact hother.placedItems_nodup hvalidOther.items
    have hplaced : ∀ item, item ∈ after.placedItems ↔ _ := fun item =>
      hlast.mem_placedItems_iff.trans (hstep.placed h.proper hforest.items item)
    have hmem : ∀ item, item ∈ self.placedItems ↔ forest.Placed item := fun item =>
      h.mem_placedItems_iff
    cases op with
    | closeItem space closed =>
      have hclosed : closed ∉ after.placedItems := fun hin => ((hplaced closed).mp hin).2 rfl
      apply (perm_ext_iff_of_nodup hbefore (nodup_cons.mpr ⟨hclosed, hnodup⟩)).mpr
      intro item
      rw [mem_cons, hplaced, hmem]
      constructor
      · intro hin
        by_cases heq : item = closed
        · exact .inl heq
        · exact .inr ⟨hin, heq⟩
      · rintro (rfl | ⟨hin, _⟩)
        · cases hstep with
          | closeItem hdetach => exact hdetach.taken_placed (mem_singleton_self _)
          | move early late hmoves => cases hmoves
          | resize hresizes => cases hresizes
        · exact hin
    | openItem space tabs opened index =>
      have hopened : opened ∉ self.placedItems := by
        rw [hmem]
        cases hstep with
        | openItem hnew hpayload hattach => exact hnew
        | move early late hmoves => cases hmoves
        | resize hresizes => cases hresizes
      apply (perm_ext_iff_of_nodup hnodup (nodup_cons.mpr ⟨hopened, hbefore⟩)).mpr
      intro item
      rw [mem_cons, hplaced, hmem, or_comm]
    | _ =>
      apply (perm_ext_iff_of_nodup hnodup hbefore).mpr
      intro item
      rw [hplaced, hmem]

theorem exists_of_changes {result : Except DockGraphMutationError (Bool × DockGraph)}
    (h : result.toOption.any Prod.fst = true) : ∃ after, result = .ok (true, after) := by
  rcases result with error | ⟨changed, after⟩
  · cases h
  · obtain rfl : changed = true := h
    exact ⟨after, rfl⟩

end DockGraph

namespace ConservationWitness

/-- Two stacks above each other, beside a third one. -/
def nestedGraph : DockGraph :=
  let (upper, graph) := DockGraph.new.insertNode (.tabs ["a"] (some "a"))
  let (lower, graph) := graph.insertNode (.tabs ["b"] (some "b"))
  let (column, graph) := graph.insertNode (.split .vertical [upper, lower] [1 / 2, 1 / 2])
  let (right, graph) := graph.insertNode (.tabs ["c", "d"] (some "c"))
  let (root, graph) := graph.insertNode (.split .horizontal [column, right] [1 / 2, 1 / 2])
  graph.setRoot "main" root

theorem nestedGraph_valid : nestedGraph.validate = .ok () := by decide +kernel

end ConservationWitness

open ConservationWitness in
theorem applyOpChecked_conserves_items_collapse :
    ∃ after, nestedGraph.applyOpChecked (.closeItem "main" "a") = .ok (true, after) ∧
      nestedGraph.placedItems.Perm ("a" :: after.placedItems) := by
  have hchanges : ∃ after, nestedGraph.applyOpChecked (.closeItem "main" "a") = .ok (true, after) :=
    DockGraph.exists_of_changes (by decide +kernel)
  obtain ⟨after, hop⟩ := hchanges
  exact ⟨after, hop, DockGraph.applyOpChecked_conserves_items nestedGraph_valid hop⟩

end OpenGpui.Docking
