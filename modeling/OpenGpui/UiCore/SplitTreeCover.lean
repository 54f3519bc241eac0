/-
What scenes of split trees cover: the leaves that get room become panels in depth-first
order, and where every split shares out its rectangle, panels and handles tile the bounds.
-/
import OpenGpui.UiCore.SplitTreeScene

namespace OpenGpui.UiCore

open List Nat SplitterState

mutual

def SplitTreeNode.leaves : SplitTreeNode → List String
  | .leaf id => [id]
  | .split _ _ children => children.leaves

def SplitTreeChildren.leaves : SplitTreeChildren → List String
  | .nil => []
  | .cons node _ rest => node.leaves ++ rest.leaves

end

/-- Something about a split: its children, what they are resolved to, and its rectangle. -/
abbrev SplitProperty := SplitTreeChildren → SplitterState → UiRect → Prop

mutual

/-- Every split of the tree that gets a rectangle has the property. -/
def SplitTreeNode.EverySplit (size : Size) (holds : SplitProperty) :
    SplitTreeNode → UiRect → Prop
  | .leaf _, _ => True
  | .split id orientation children, bounds =>
    holds children (children.state id orientation size) bounds ∧ children.EverySplit size holds
        ((children.state id orientation size).childRects bounds)

def SplitTreeChildren.EverySplit (size : Size) (holds : SplitProperty) :
    SplitTreeChildren → List UiRect → Prop
  | .cons node _ rest, range :: ranges =>
    node.EverySplit size holds range ∧ rest.EverySplit size holds ranges
  | _, _ => True

end

section Sublists

variable {α : Type}

theorem append_eq_append_of_sublist {first second part rest : List α}
    (hpart : part.Sublist first) (hrest : rest.Sublist second) :
    part ++ rest = first ++ second ↔ part = first ∧ rest = second := by
  constructor
  · intro h
    have hlength := congrArg List.length h
    rw [length_append, length_append] at hlength
    have hle := hpart.length_le
    have hle' := hrest.length_le
    exact ⟨hpart.eq_of_length (by omega), hrest.eq_of_length (by omega)⟩
  · rintro ⟨rfl, rfl⟩
    rfl

end Sublists

namespace SplitTreeChildren

variable (children : SplitTreeChildren)

theorem takesSpace_state (id : String) (orientation : Orientation) (size : Size) :
    (children.state id orientation size).TakesSpace :=
  takesSpace_resolve _ _ _ _ _

theorem length_state (id : String) (orientation : Orientation) (size : Size) :
    (children.state id orientation size).panels.length = children.descriptors.length :=
  (resolve_resolvedFrom _ _ _ _ _).length_eq.symm

end SplitTreeChildren

section Leaves

variable {size : Size}

/-- The split has room, or no leaf below it needs any. -/
def RoomForLeaves : SplitProperty := fun children _ bounds => bounds.HasRoom ∨ children.leaves = []

/-- The panels that a part of the tree adds: some of its leaves, in their order, and all of
them when there is room for them. -/
structure AddsLeaves (before after : SplitterLayoutScene) (leaves : List String)
    (roomy : Prop) : Prop where
  exists_added : ∃ added : List String,
    after.panels.map (·.id) = before.panels.map (·.id) ++ added ∧ added.Sublist leaves ∧
      (added = leaves ↔ roomy)

theorem AddsLeaves.append {before middle after : SplitterLayoutScene}
    {leaves more : List String} {roomy roomy' : Prop}
    (hfirst : AddsLeaves before middle leaves roomy)
    (hsecond : AddsLeaves middle after more roomy') :
    AddsLeaves before after (leaves ++ more) (roomy ∧ roomy') := by
  obtain ⟨added, hadded, hsub, hall⟩ := hfirst
  obtain ⟨added', hadded', hsub', hall'⟩ := hsecond
  refine ⟨added ++ added', ?_, hsub.append hsub', ?_⟩
  · rw [hadded', hadded, append_assoc]
  · rw [append_eq_append_of_sublist hsub hsub', hall, hall']

mutual

theorem pushTreeNode_addsLeaves (node : SplitTreeNode) (bounds : UiRect) (fraction : Scalar)
    (scene : SplitterLayoutScene) :
    AddsLeaves scene (SplitterLayoutScene.pushTreeNode size node bounds fraction scene)
      node.leaves (node.EverySplit size RoomForLeaves bounds) := by
  cases node with
  | leaf id =>
    rw [SplitterLayoutScene.pushTreeNode, SplitTreeNode.leaves, SplitTreeNode.EverySplit]
    refine ⟨[id], ?_, List.Sublist.refl _, iff_of_true rfl trivial⟩
    rw [map_append]
    rfl
  | split id orientation children =>
    rw [SplitterLayoutScene.pushTreeNode, SplitTreeNode.leaves, SplitTreeNode.EverySplit]
    have htakes := children.takesSpace_state id orientation size
    have hlength := children.length_state id orientation size
    generalize children.state id orientation size = state at htakes hlength ⊢
    by_cases hroom : bounds.HasRoom
    · have hrects := length_childRects htakes hroom
      have hpanels : (scene.pushStateLayout state bounds false).2.panels = scene.panels := by
        by_cases hnone : state.panels = []
        · rw [pushStateLayout_of_thin _ (.inr hnone)]
        · obtain ⟨_, _, _, _, _, _, _, hrecorded, _⟩ :=
            pushStateLayout_of_room htakes hroom hnone scene
          exact hrecorded
      obtain ⟨added, hadded, hsub, hall⟩ := pushTreeChildren_addsLeaves children
        (state.childRects bounds) (state.panels.map (·.fraction)) (hrects.trans hlength)
        (by rw [length_map, hlength]) (scene.pushStateLayout state bounds false).2
      rw [hpanels] at hadded
      rw [pushStateLayout_fst]
      refine ⟨added, hadded, hsub, hall.trans ?_⟩
      exact (and_iff_right (.inl hroom)).symm
    · rw [pushStateLayout_of_thin _ (.inl hroom),
        childRects_of_thin (.inl hroom)]
      refine ⟨[], ?_, nil_sublist _, ?_⟩
      · rw [append_nil]
        cases children <;> rfl
      · have hbelow : children.EverySplit size RoomForLeaves [] := by
          cases children <;> exact trivial
        rw [and_iff_left hbelow, RoomForLeaves, or_iff_right hroom, eq_comm]

theorem pushTreeChildren_addsLeaves (children : SplitTreeChildren) (ranges : List UiRect)
    (fractions : List Scalar) (hranges : ranges.length = children.descriptors.length)
    (hfractions : fractions.length = children.descriptors.length) (scene : SplitterLayoutScene) :
    AddsLeaves scene (SplitterLayoutScene.pushTreeChildren size children ranges fractions scene)
      children.leaves (children.EverySplit size RoomForLeaves ranges) := by
  cases children with
  | nil =>
    refine ⟨[], (append_nil _).symm, List.Sublist.refl _, ?_⟩
    exact iff_of_true rfl trivial
  | cons node share rest =>
    cases ranges with
    | nil => cases hranges
    | cons range ranges =>
      cases fractions with
      | nil => cases hfractions
      | cons fraction fractions =>
        rw [SplitTreeChildren.leaves, SplitTreeChildren.EverySplit,
          SplitterLayoutScene.pushTreeChildren]
        exact (pushTreeNode_addsLeaves node range fraction scene).append
          (pushTreeChildren_addsLeaves rest ranges fractions (Nat.succ.inj hranges)
            (Nat.succ.inj hfractions) _)

end

end Leaves

section Points

variable {size : Size} (point : UiPoint)

/-- The fractions of the children do not exceed the whole. -/
def WithinWhole : SplitProperty := fun _ state _ => fractionSum state.panels ≤ 1

/-- The split has room, and its children and the handles between them share it out. -/
def SharedOut : SplitProperty := fun _ state bounds =>
  bounds.HasRoom ∧ fractionSum state.panels = 1 ∧ state.HandlesFit bounds

namespace SplitterLayoutScene

variable (scene : SplitterLayoutScene)

/-- How many panels contain a point. -/
def panelsAt : Nat := scene.panels.countP (·.bounds.contains point)

def handlesAt : Nat := scene.handles.countP (·.bounds.contains point)

variable (id : String)

theorem panelsAt_leaf (bounds : UiRect) (fraction : Scalar) (scene : SplitterLayoutScene) :
    (pushTreeNode size (.leaf id) bounds fraction scene).panelsAt point =
      scene.panelsAt point + if bounds.contains point then 1 else 0 := by
  rw [pushTreeNode, panelsAt, countP_append, countP_singleton]
  rfl

theorem panelsAt_pushStateLayout (children : SplitTreeChildren) (id : String)
    (orientation : Orientation) (bounds : UiRect) (scene : SplitterLayoutScene) :
    (scene.pushStateLayout (children.state id orientation size) bounds false).2.panelsAt point =
      scene.panelsAt point := by
  by_cases hthin : ¬bounds.HasRoom ∨ (children.state id orientation size).panels = []
  · rw [pushStateLayout_of_thin _ hthin]
  · rw [not_or, not_not] at hthin
    obtain ⟨_, _, _, _, _, _, _, hrecorded, _⟩ := pushStateLayout_of_room
      (children.takesSpace_state id orientation size) hthin.1 hthin.2 scene
    rw [panelsAt, hrecorded]
    rfl

mutual

theorem panelsAt_pushTreeNode_le (node : SplitTreeNode) (bounds : UiRect) (fraction : Scalar)
    (scene : SplitterLayoutScene) (hwithin : node.EverySplit size WithinWhole bounds) :
    (pushTreeNode size node bounds fraction scene).panelsAt point ≤
      scene.panelsAt point + if bounds.contains point then 1 else 0 := by
  cases node with
  | leaf id => exact (panelsAt_leaf point id bounds fraction scene).le
  | split id orientation children =>
    obtain ⟨hsum, hbelow⟩ := hwithin
    rw [pushTreeNode]
    have hchildren := panelsAt_pushTreeChildren_le children ((children.state id orientation
      size).childRects bounds) ((children.state id orientation size).panels.map (·.fraction))
      (scene.pushStateLayout (children.state id orientation size) bounds false).2 hbelow
    rw [panelsAt_pushStateLayout] at hchildren
    rw [pushStateLayout_fst]
    have hrects := @SplitterState.countP_childRects_le _ bounds
      (children.takesSpace_state id orientation size) hsum point
    exact hchildren.trans (Nat.add_le_add_left hrects _)

theorem panelsAt_pushTreeChildren_le (children : SplitTreeChildren) (ranges : List UiRect)
    (fractions : List Scalar) (scene : SplitterLayoutScene)
    (hwithin : children.EverySplit size WithinWhole ranges) :
    (pushTreeChildren size children ranges fractions scene).panelsAt point ≤
      scene.panelsAt point + ranges.countP (·.contains point) := by
  cases children with
  | nil => exact le_add_right _ _
  | cons node share rest =>
    cases ranges with
    | nil => exact le_add_right _ _
    | cons range ranges =>
      cases fractions with
      | nil => exact le_add_right _ _
      | cons fraction fractions =>
        obtain ⟨hnode, hrest⟩ := hwithin
        rw [pushTreeChildren, countP_cons]
        have hfirst := panelsAt_pushTreeNode_le node range fraction scene hnode
        have hlater := panelsAt_pushTreeChildren_le rest ranges fractions
          (pushTreeNode size node range fraction scene) hrest
        omega

end

theorem handlesAt_leaf (bounds : UiRect) (fraction : Scalar) (scene : SplitterLayoutScene) :
    (pushTreeNode size (.leaf id) bounds fraction scene).handlesAt point =
      scene.handlesAt point := by
  rfl

mutual

theorem tiles_pushTreeNode (node : SplitTreeNode) (bounds : UiRect) (fraction : Scalar)
    (scene : SplitterLayoutScene) (hshared : node.EverySplit size SharedOut bounds) :
    (pushTreeNode size node bounds fraction scene).panelsAt point +
        (pushTreeNode size node bounds fraction scene).handlesAt point =
      scene.panelsAt point + scene.handlesAt point + if bounds.contains point then 1 else 0 := by
  cases node with
  | leaf id =>
    rw [panelsAt_leaf, handlesAt_leaf, add_right_comm]
  | split id orientation children =>
    obtain ⟨⟨hroom, hsum, hfit⟩, hbelow⟩ := hshared
    have htakes := children.takesSpace_state id orientation size
    have hrects := (length_childRects htakes hroom).trans
      (children.length_state id orientation size)
    have hchildren := tiles_pushTreeChildren children ((children.state id orientation
      size).childRects bounds) ((children.state id orientation size).panels.map (·.fraction)) hrects
      (by rw [length_map, children.length_state])
      (scene.pushStateLayout (children.state id orientation size) bounds false).2 hbelow
    rw [panelsAt_pushStateLayout] at hchildren
    have hown : ((children.state id orientation size).childRects bounds).countP (·.contains point) +
          (scene.pushStateLayout (children.state id orientation size) bounds false).2.handlesAt
          point = scene.handlesAt point + if bounds.contains point then 1 else 0 :=
      countP_pushStateLayout htakes hroom hsum hfit scene point
    rw [pushTreeNode, pushStateLayout_fst]
    omega

theorem tiles_pushTreeChildren (children : SplitTreeChildren) (ranges : List UiRect)
    (fractions : List Scalar) (hranges : ranges.length = children.descriptors.length)
    (hfractions : fractions.length = children.descriptors.length)
    (scene : SplitterLayoutScene) (hshared : children.EverySplit size SharedOut ranges) :
    (pushTreeChildren size children ranges fractions scene).panelsAt point +
        (pushTreeChildren size children ranges fractions scene).handlesAt point =
      scene.panelsAt point + scene.handlesAt point + ranges.countP (·.contains point) := by
  cases children with
  | nil =>
    have hnone : ranges = [] := length_eq_zero_iff.mp hranges
    rw [hnone]
    rfl
  | cons node share rest =>
    cases ranges with
    | nil => cases hranges
    | cons range ranges =>
      cases fractions with
      | nil => cases hfractions
      | cons fraction fractions =>
        obtain ⟨hnode, hrest⟩ := hshared
        have hfirst := tiles_pushTreeNode node range fraction scene hnode
        have hlater := tiles_pushTreeChildren rest ranges fractions (Nat.succ.inj hranges)
          (Nat.succ.inj hfractions) (pushTreeNode size node range fraction scene) hrest
        rw [pushTreeChildren, countP_cons]
        omega

end

end SplitterLayoutScene

end Points

/-- What a scene of a tree covers. -/
structure SplitTreeNode.CoveredBy (root : SplitTreeNode) (bounds : UiRect) (size : Size)
    (scene : SplitterLayoutScene) : Prop where
  inOrder : (scene.panels.map (·.id)).Sublist root.leaves
  complete : scene.panels.map (·.id) = root.leaves ↔ root.EverySplit size RoomForLeaves bounds
  /-- No point is in two panels, and only points of the bounds are in any. -/
  apart : root.EverySplit size WithinWhole bounds → ∀ point,
    scene.panelsAt point ≤ if bounds.contains point then 1 else 0
  /-- Every point of the bounds, and no other, is in one panel or handle. -/
  tiled : root.EverySplit size SharedOut bounds → ∀ point,
    scene.panelsAt point + scene.handlesAt point = if bounds.contains point then 1 else 0

theorem SplitterLayoutScene.fromTree_covers (root : SplitTreeNode) (bounds : UiRect)
    (size : Size) : root.CoveredBy bounds size (fromTree root bounds size) := by
  let start : SplitterLayoutScene :=
    ⟨root.id, root.orientation.getD .horizontal, bounds, [], [], []⟩
  obtain ⟨added, hadded, hsub, hall⟩ := @pushTreeNode_addsLeaves size root bounds 1 start
  have hids : (fromTree root bounds size).panels.map (·.id) = added := hadded
  refine ⟨?_, ?_, ?_, ?_⟩
  · rw [hids]
    exact hsub
  · rw [hids]
    exact hall
  · intro hwithin point
    have hle := panelsAt_pushTreeNode_le point root bounds 1 start hwithin
    rw [show start.panelsAt point = 0 from rfl, Nat.zero_add] at hle
    exact hle
  · intro hshared point
    have htiles := tiles_pushTreeNode point root bounds 1 start hshared
    rw [show start.panelsAt point = 0 from rfl, show start.handlesAt point = 0 from rfl,
      Nat.zero_add] at htiles
    exact htiles

def squareBounds : UiRect := ⟨⟨0, 0⟩, ⟨100, 100⟩⟩

/-- The second child has no share of the width, and is split again. -/
def squeezedTree : SplitTreeNode :=
  .split "root" .horizontal (.cons (.leaf "a") { fraction := 1 }
    (.cons (.split "inner" .vertical (.cons (.leaf "b") { fraction := 1 / 2 }
      (.cons (.leaf "c") { fraction := 1 / 2 } .nil))) { fraction := 0, minFraction := 0 } .nil))

/-- Eleven children, each of a tenth at least. -/
def crowdedTree : SplitTreeNode :=
  .split "root" .horizontal ((List.replicate 11 (SplitTreeNode.leaf "pane")).foldr
    (fun node rest => .cons node { fraction := 1 / 11 } rest) .nil)

/-- Two children that miss the whole by less than the tolerance. -/
def roundedTree : SplitTreeNode :=
  .split "root" .horizontal (.cons (.leaf "a") { fraction := 1 / 2 }
    (.cons (.leaf "b") { fraction := 4999 / 10000 + 1 / 20000 } .nil))

/-- Leaves are left out, panels leave the bounds, and points of the bounds are in neither
panel nor handle although the handles fit. -/
theorem fromTree_not_covering :
    (SplitterLayoutScene.fromTree squeezedTree squareBounds .medium).panels.map (·.id) ≠
        squeezedTree.leaves ∧
      ((SplitterLayoutScene.fromTree crowdedTree ⟨⟨0, 0⟩, ⟨1000, 100⟩⟩ .medium).panelsAt
          ⟨1050, 0⟩ = 1 ∧
        (⟨⟨0, 0⟩, ⟨1000, 100⟩⟩ : UiRect).contains ⟨1050, 0⟩ = false) ∧
      (SplitterLayoutScene.fromTree roundedTree ⟨⟨0, 0⟩, ⟨20012, 100⟩⟩ .medium).panelsAt
          ⟨20011, 0⟩ = 0 ∧
        (SplitterLayoutScene.fromTree roundedTree ⟨⟨0, 0⟩, ⟨20012, 100⟩⟩ .medium).handlesAt
          ⟨20011, 0⟩ = 0 ∧
        (⟨⟨0, 0⟩, ⟨20012, 100⟩⟩ : UiRect).contains ⟨20011, 0⟩ = true := by
  decide +kernel

end OpenGpui.UiCore
