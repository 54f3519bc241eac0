/-
The layout of a dock graph: rectangles handed down the subtree of a node, where the
children of a split cut its rectangle up and a floating node passes its own on.
-/
import OpenGpui.Docking.SplitGeometry
import OpenGpui.Docking.ValidForest

namespace OpenGpui.Docking

open List KeyMap Option List.Sublist

open DockTree Relation

/-- Computed rectangles by node. -/
abbrev LayoutBounds := KeyMap DockNodeId Bounds

/-- Entries written into a map hide what the map held under their keys. -/
theorem get_foldl_insert (entries : List (DockNodeId × Bounds)) (out : LayoutBounds)
    (key : DockNodeId) :
    (entries.foldl (fun out entry => out.insert entry.1 entry.2) out)[key]? =
      ((entries.foldl (fun out entry => out.insert entry.1 entry.2)
        (∅ : LayoutBounds))[key]?).or out[key]? := by
  induction entries using reverseRecOn with
  | nil => simp
  | append_singleton rest entry ih =>
    rw [foldl_append, foldl_append, foldl_cons, foldl_cons, foldl_nil,
      foldl_nil, get_insert, get_insert, ih]
    by_cases heq : entry.1 = key
    · rw [if_pos heq, if_pos heq, some_or]
    · rw [if_neg heq, if_neg heq]

/-- Entries of distinct keys are all found again. -/
theorem get_foldl_insert_iff {entries : List (DockNodeId × Bounds)}
    (hnodup : (entries.map Prod.fst).Nodup) (key : DockNodeId) (rect : Bounds) :
    (entries.foldl (fun out entry => out.insert entry.1 entry.2)
      (∅ : LayoutBounds))[key]? = some rect ↔ (key, rect) ∈ entries := by
  induction entries using reverseRecOn with
  | nil => simp
  | append_singleton rest entry ih =>
    rw [map_append, nodup_append] at hnodup
    rw [foldl_append, foldl_cons, foldl_nil, get_insert, mem_append, mem_singleton, ← ih hnodup.1]
    by_cases heq : entry.1 = key
    · have hnew : ∀ other, (key, other) ∉ rest := by
        intro other hmem
        exact hnodup.2.2 key (mem_map_of_mem hmem) entry.1 (mem_singleton_self _) heq.symm
      rw [if_pos heq, ih hnodup.1, or_iff_right (hnew rect), some.injEq, Prod.ext_iff,
        and_iff_right heq.symm]
      exact eq_comm
    · rw [if_neg heq]
      refine (or_iff_left ?_).symm
      rintro rfl
      exact heq rfl

/-- Trees that are below each other are the same. -/
theorem mem_subtrees_antisymm {first second : DockTree} (h : first ∈ second.subtrees)
    (h' : second ∈ first.subtrees) : first = second := by
  have hlength : ∀ {tree sub : DockTree}, sub ∈ tree.subtrees →
      sub = tree ∨ sub.ids.length < tree.ids.length := by
    intro tree
    induction tree using below_induction with
    | step tree ih =>
      intro sub hsub
      rw [subtrees_eq] at hsub
      rcases mem_cons.mp hsub with rfl | hbelow
      · exact .inl rfl
      · obtain ⟨child, hchild, hmem⟩ := mem_flatMap.mp hbelow
        have hlt := child_ids_length_lt hchild
        rcases ih child hchild hmem with rfl | hless
        · exact .inr hlt
        · exact .inr (hless.trans hlt)
  rcases hlength h with rfl | hless
  · rfl
  · rcases hlength h' with heq | hmore
    · exact heq.symm
    · exact absurd (hless.trans hmore) (lt_irrefl _)

namespace DockGraph

variable (self : DockGraph) (root : DockNodeId)

def centralNodeForSubtree : Option DockNodeId :=
  (self.centralRegions.toList.filterMap fun entry => entry.2.node).find? (self.subtreeContains root)

def centralChildIndex (children : List DockNodeId) (centralNode : Option DockNodeId) : Option Nat :=
  centralNode.bind fun centralNode =>
    children.findIdx? fun child => self.subtreeContains child centralNode

/-- The layout of a split node, without room for handles. -/
def splitLayout (centralNode : Option DockNodeId) (split : DockNodeId) (axis : SplitAxis)
    (children : List DockNodeId) (fractions : List Scalar) (bounds : Bounds) :
    DockResolvedSplitLayout :=
  resolveDockSplitLayout split axis children fractions
    (self.centralChildIndex children centralNode) bounds 0

/-- The descent ends on every tree of the graph before the bound does. -/
def computeLayoutWithCentral (centralNode : Option DockNodeId) :
    Nat → DockNodeId → Bounds → LayoutBounds → LayoutBounds
  | 0, _, _, out => out
  | fuel + 1, root, bounds, out =>
    match self.nodes.get root with
    | none => out
    | some node =>
      let out := out.insert root bounds
      match node with
      | .tabs _ _ => out
      | .floating child => computeLayoutWithCentral centralNode fuel child bounds out
      | .split axis children fractions =>
        if children.isEmpty then out
        else
          (self.splitLayout centralNode root axis children fractions bounds).panels.foldl
            (fun out panel =>
              computeLayoutWithCentral centralNode fuel panel.child panel.bounds out) out

def computeLayout (bounds : Bounds) (out : LayoutBounds) : LayoutBounds :=
  self.computeLayoutWithCentral (self.centralNodeForSubtree root) self.fuel root bounds out

section Descent

variable (centralNode : Option DockNodeId)

/-- The entries a layout writes, in their order. -/
def layoutEntries : Nat → DockNodeId → Bounds → List (DockNodeId × Bounds)
  | 0, _, _ => []
  | fuel + 1, root, bounds =>
    match self.nodes.get root with
    | none => []
    | some (.tabs _ _) => [(root, bounds)]
    | some (.floating child) => (root, bounds) :: layoutEntries fuel child bounds
    | some (.split axis children fractions) =>
      (root, bounds) ::
        (self.splitLayout centralNode root axis children fractions bounds).panels.flatMap
          fun panel => layoutEntries fuel panel.child panel.bounds

theorem computeLayoutWithCentral_eq (fuel : Nat) (root : DockNodeId) (bounds : Bounds)
    (out : LayoutBounds) :
    self.computeLayoutWithCentral centralNode fuel root bounds out =
      (self.layoutEntries centralNode fuel root bounds).foldl
        (fun out entry => out.insert entry.1 entry.2) out := by
  induction fuel generalizing root bounds out with
  | zero => rfl
  | succ fuel ih =>
    rw [computeLayoutWithCentral, layoutEntries]
    cases self.nodes.get root with
    | none => rfl
    | some node =>
      cases node with
      | tabs items selected => rfl
      | floating child => exact ih child bounds _
      | split axis children fractions =>
        rw [foldl_cons, foldl_flatMap]
        simp only [ih]
        cases children with
        | nil => rfl
        | cons child rest => rfl

/-- The children a node hands rectangles down to. -/
def parts : DockTree × Bounds → List (DockTree × Bounds)
  | (.tabs _ _ _, _) => []
  | (.floating _ child, bounds) => [(child, bounds)]
  | (.split key axis kids fractions, bounds) =>
    kids.zip ((self.splitLayout centralNode key axis (kids.map DockTree.id) fractions
      bounds).panels.map (·.bounds))

/-- A rectangle of a tree leads to one of a tree below. -/
def LeadsTo : DockTree × Bounds → DockTree × Bounds → Prop :=
  ReflTransGen fun first next => next ∈ self.parts centralNode first

variable {self} {centralNode} {tree : DockTree} {bounds : Bounds} {child : DockTree}

theorem child_of_mem_parts {rect : Bounds}
    (h : (child, rect) ∈ self.parts centralNode (tree, bounds)) : child ∈ tree.children := by
  cases tree with
  | tabs key items selected => cases h
  | floating key low =>
    cases mem_singleton.mp h
    exact mem_singleton_self child
  | split key axis kids fractions => exact (of_mem_zip h).1

variable {first last : DockTree × Bounds}

theorem LeadsTo.mem_subtrees (h : self.LeadsTo centralNode first last) :
    last.1 ∈ first.1.subtrees := by
  induction h with
  | refl => exact first.1.mem_subtrees_self
  | tail _ hstep ih => exact mem_subtrees_trans ih (child_mem_subtrees (child_of_mem_parts hstep))

variable (key : DockNodeId)

/-- The panels of a split of trees are the parts it is cut into. -/
theorem panels_eq_parts (axis : SplitAxis) (kids : List DockTree)
    (fractions : List Scalar) (bounds : Bounds) :
    (self.splitLayout centralNode key axis (kids.map DockTree.id) fractions bounds).panels =
      (self.parts centralNode (.split key axis kids fractions, bounds)).map
        fun part => ⟨part.1.id, part.2⟩ := by
  have hzip : ∀ (kids : List DockTree) (panels : List UiCore.SplitterPanelLayout),
      let cut := ((kids.map DockTree.id).zip panels).map fun entry =>
        (⟨entry.1, boundsFromUiRect entry.2.bounds⟩ : DockResolvedSplitPanel)
      cut = (kids.zip (cut.map (·.bounds))).map fun part => ⟨part.1.id, part.2⟩ := by
    intro kids
    induction kids with
    | nil => exact fun _ => rfl
    | cons kid rest ih =>
      intro panels
      cases panels with
      | nil => rfl
      | cons panel others => exact congrArg (List.cons _) (ih others)
  exact hzip kids _

variable (self centralNode) in
theorem parts_sublist (tree : DockTree) (bounds : Bounds) :
    ((self.parts centralNode (tree, bounds)).map Prod.fst).Sublist tree.children := by
  have hzip : ∀ (kids : List DockTree) (rects : List Bounds),
      ((kids.zip rects).map Prod.fst).Sublist kids := by
    intro kids
    induction kids with
    | nil => exact fun _ => refl _
    | cons kid rest ih =>
      intro rects
      cases rects with
      | nil => exact nil_sublist _
      | cons rect others => exact (ih others).cons_cons kid
  cases tree with
  | tabs key items selected | floating key child => exact refl _
  | split key axis kids fractions => exact hzip kids _

section

variable (hstored : Stored self.nodes tree)

include hstored

/-- What a stored tree writes: its own rectangle, and what its parts write. -/
theorem layoutEntries_eq (fuel : Nat) (bounds : Bounds) :
    self.layoutEntries centralNode (fuel + 1) tree.id bounds =
      (tree.id, bounds) :: (self.parts centralNode (tree, bounds)).flatMap fun part =>
        self.layoutEntries centralNode fuel part.1.id part.2 := by
  rw [layoutEntries, hstored.get]
  cases tree with
  | tabs key items selected => rfl
  | floating key child => exact congrArg (List.cons _) (append_nil _).symm
  | split key axis kids fractions =>
    dsimp only [DockTree.node]
    rw [id_split, panels_eq_parts, flatMap_map]

/-- The entries of a stored tree are the rectangles its own leads to. -/
theorem mem_layoutEntries_iff {fuel : Nat}
    (hfuel : tree.ids.length ≤ fuel) {rect : Bounds} {key : DockNodeId} :
    (key, rect) ∈ self.layoutEntries centralNode fuel tree.id bounds ↔
      ∃ low, self.LeadsTo centralNode (tree, bounds) (low, rect) ∧ low.id = key := by
  induction tree using below_induction generalizing fuel bounds with
  | step tree ih =>
    obtain ⟨rest, rfl, hrest⟩ := descend hfuel
    have hpart : ∀ part ∈ self.parts centralNode (tree, bounds),
        ((key, rect) ∈ self.layoutEntries centralNode rest part.1.id part.2 ↔
          ∃ low, self.LeadsTo centralNode part (low, rect) ∧ low.id = key) := by
      intro part hpart
      have hchild := child_of_mem_parts hpart
      exact ih part.1 hchild (hstored.child hchild) (hrest part.1 hchild)
    rw [layoutEntries_eq hstored, mem_cons, mem_flatMap, Prod.mk.injEq]
    constructor
    · rintro (⟨rfl, rfl⟩ | ⟨part, hmem, hbelow⟩)
      · exact ⟨tree, ReflTransGen.refl, rfl⟩
      · obtain ⟨low, hleads, hkey⟩ := (hpart part hmem).mp hbelow
        exact ⟨low, ReflTransGen.head hmem hleads, hkey⟩
    · rintro ⟨low, hleads, hkey⟩
      rcases ReflTransGen.cases_head hleads with hself | ⟨part, hmem, hbelow⟩
      · cases hself
        exact .inl ⟨hkey.symm, rfl⟩
      · exact .inr ⟨part, hmem, (hpart part hmem).mpr ⟨low, hbelow, hkey⟩⟩

theorem layoutEntries_keys_sublist {fuel : Nat} (hfuel : tree.ids.length ≤ fuel) (bounds : Bounds) :
    ((self.layoutEntries centralNode fuel tree.id bounds).map Prod.fst).Sublist tree.ids := by
  induction tree using below_induction generalizing fuel bounds with
  | step tree ih =>
    obtain ⟨rest, rfl, hrest⟩ := descend hfuel
    rw [layoutEntries_eq hstored, map_cons, map_flatMap, ids_eq]
    apply cons_cons
    have hparts : ((self.parts centralNode (tree, bounds)).flatMap fun part =>
        (self.layoutEntries centralNode rest part.1.id part.2).map Prod.fst).Sublist
          ((self.parts centralNode (tree, bounds)).flatMap fun part => part.1.ids) := by
      apply List.Sublist.flatMap_right
      intro part hpart
      have hchild := child_of_mem_parts hpart
      exact ih part.1 hchild (hstored.child hchild) (hrest part.1 hchild) part.2
    refine hparts.trans ?_
    have hkids := (self.parts_sublist centralNode tree bounds).flatMap ids
    rwa [flatMap_map] at hkids

end

/-- What leads to a tree below another leads through the other. -/
theorem LeadsTo.through (h : self.LeadsTo centralNode first last)
    (hnodup : first.1.ids.Nodup) {mid : DockTree} (hmid : mid ∈ first.1.subtrees)
    (hlast : last.1 ∈ mid.subtrees) :
    ∃ rect, self.LeadsTo centralNode first (mid, rect) ∧
      self.LeadsTo centralNode (mid, rect) last := by
  induction h using ReflTransGen.head_induction_on with
  | refl =>
    rw [mem_subtrees_antisymm hmid hlast]
    exact ⟨last.2, ReflTransGen.refl, ReflTransGen.refl⟩
  | @head first next hstep hrest ih =>
    have hnext := child_of_mem_parts hstep
    rw [subtrees_eq] at hmid
    rcases mem_cons.mp hmid with rfl | hbelow
    · exact ⟨first.2, ReflTransGen.refl, ReflTransGen.head hstep hrest⟩
    · obtain ⟨child, hchild, hmem⟩ := mem_flatMap.mp hbelow
      -- The last tree is below only one child, so the step goes towards the middle.
      have hsame : child = next.1 := by
        rw [ids_eq, nodup_cons] at hnodup
        exact eq_of_mem_flatMap_nodup hnodup.2 hchild hnext
          (mem_ids_iff.mpr ⟨last.1, mem_subtrees_trans hmem hlast, rfl⟩)
          (mem_ids_iff.mpr ⟨last.1, LeadsTo.mem_subtrees hrest, rfl⟩)
      obtain ⟨rect, hto, hfrom⟩ :=
        ih (nodup_of_mem_subtrees hnodup (child_mem_subtrees hnext)) (hsame ▸ hmem)
      exact ⟨rect, ReflTransGen.head hstep hto, hfrom⟩

variable {kids : List DockTree}

theorem getElem_mem_zip {tiles : List Bounds} {index : Nat}
    (hkid : index < kids.length) (htile : index < tiles.length) :
    (kids[index], tiles[index]) ∈ kids.zip tiles := by
  have hzip : index < (kids.zip tiles).length := by
    rw [length_zip]
    exact lt_min hkid htile
  exact mem_iff_getElem.mpr ⟨index, hzip, getElem_zip⟩

/-- A split with room leads to the panels it is cut into, one for each child. -/
theorem split_parts {key : DockNodeId} {axis : SplitAxis}
    (hkids : kids ≠ []) (fractions : List Scalar) (hroom : bounds.HasRoom) :
    ∃ tiles, self.parts centralNode (.split key axis kids fractions, bounds) = kids.zip tiles ∧
      tiles.length = kids.length ∧ TilesAlong axis bounds tiles := by
  have hpanels := resolveDockSplitLayout_panels key axis (mt map_eq_nil_iff.mp hkids : kids.map
    DockTree.id ≠ []) fractions (self.centralChildIndex (kids.map DockTree.id) centralNode) bounds 0
  rw [if_pos hroom] at hpanels
  refine ⟨_, rfl, ?_, hpanels.2⟩
  have hlength := congrArg length hpanels.1
  rwa [length_map, length_map, ← length_map (f := (·.bounds))] at hlength

theorem split_parts_thin (axis : SplitAxis) (kids : List DockTree)
    (fractions : List Scalar) (hthin : ¬ bounds.HasRoom) :
    self.parts centralNode (.split key axis kids fractions, bounds) = [] := by
  cases kids with
  | nil => rfl
  | cons kid rest =>
    have hpanels := resolveDockSplitLayout_panels key axis
      (cons_ne_nil kid.id (rest.map DockTree.id)) fractions
      (self.centralChildIndex ((kid :: rest).map DockTree.id) centralNode) bounds 0
    rw [if_neg hthin] at hpanels
    have hnone : (self.splitLayout centralNode key axis ((kid :: rest).map DockTree.id) fractions
        bounds).panels = [] := hpanels
    change (kid :: rest).zip (map _ (self.splitLayout centralNode key axis _ fractions
      bounds).panels) = []
    rw [hnone, map_nil, zip_nil_right]

variable (self centralNode) in
/-- Every child gets a part, when a split has room. -/
theorem exists_part (hchild : child ∈ tree.children)
    (hroom : ∀ key axis kids fractions, tree = .split key axis kids fractions → bounds.HasRoom) :
    ∃ rect, (child, rect) ∈ self.parts centralNode (tree, bounds) := by
  cases tree with
  | tabs key items selected => cases hchild
  | floating key low =>
    obtain rfl := mem_singleton.mp hchild
    exact ⟨bounds, mem_singleton_self _⟩
  | split key axis kids fractions =>
    change child ∈ kids at hchild
    obtain ⟨tiles, hparts, hlength, _⟩ := split_parts (ne_nil_of_mem hchild) fractions
      (hroom key axis kids fractions rfl)
    obtain ⟨index, hindex, rfl⟩ := mem_iff_getElem.mp hchild
    have htile : index < tiles.length := hlength.symm ▸ hindex
    exact ⟨tiles[index], hparts ▸ getElem_mem_zip hindex htile⟩

end Descent

/-- What a layout makes of the subtree of a node.  Rectangles go down from the top;
floating nodes pass theirs on, splits with room are cut up by their children, and below
a split without room there are none. -/
structure LaidOut (root : DockNodeId) (bounds : Bounds) (laid : LayoutBounds) : Prop where
  top : laid[root]? = some bounds
  below : ∀ node rect, laid[node]? = some rect → self.subtreeContains root node = true
  floating : ∀ node child rect, self.node node = some (.floating child) →
    laid[node]? = some rect → laid[child]? = some rect
  tiles : ∀ node axis children fractions rect,
    self.node node = some (.split axis children fractions) → laid[node]? = some rect →
      rect.HasRoom → ∃ tiles, children.map (laid[·]?) = tiles.map some ∧ TilesAlong axis rect tiles
  thin : ∀ node axis children fractions rect,
    self.node node = some (.split axis children fractions) → laid[node]? = some rect →
      ¬ rect.HasRoom → ∀ child ∈ children, ∀ low, self.subtreeContains child low = true →
        laid[low]? = none
  complete : (∀ node, self.subtreeContains root node = true → ∃ rect, laid[node]? = some rect) ↔
    ∀ node axis children fractions rect, self.node node = some (.split axis children fractions) →
      laid[node]? = some rect → rect.HasRoom

variable {self}

section Laid

variable {tree : DockTree} {bounds : Bounds} {laid : LayoutBounds} {centralNode : Option DockNodeId}

/-- The nodes a layout assigns, one by one. -/
theorem get_computeLayout_iff (hstored : Stored self.nodes tree) (hnodup : tree.ids.Nodup)
    (key : DockNodeId) (rect : Bounds) :
    (self.computeLayout tree.id bounds ∅)[key]? = some rect ↔ ∃ low,
      self.LeadsTo (self.centralNodeForSubtree tree.id) (tree, bounds) (low, rect) ∧
        low.id = key := by
  have hfuel := self.ids_length_le_fuel hstored hnodup
  rw [computeLayout, computeLayoutWithCentral_eq, get_foldl_insert_iff ((layoutEntries_keys_sublist
    hstored hfuel bounds).nodup hnodup), mem_layoutEntries_iff hstored hfuel]

/-- A map that holds what the rectangle of a well-formed tree leads to. -/
theorem laidOut_of_get_iff (hstored : Stored self.nodes tree) (hnodup : tree.ids.Nodup)
    (hwell : tree.WellFormed) (hlaid : ∀ key rect, laid[key]? = some rect ↔
      ∃ low, self.LeadsTo centralNode (tree, bounds) (low, rect) ∧ low.id = key) :
    self.LaidOut tree.id bounds laid := by
  have hfind : ∀ {node content rect}, self.node node = some content → laid[node]? = some rect →
      ∃ low, self.LeadsTo centralNode (tree, bounds) (low, rect) ∧ low ∈ tree.subtrees ∧
        low.id = node ∧ low.node = content := by
    intro node content rect hnode hrect
    obtain ⟨low, hleads, rfl⟩ := (hlaid node rect).mp hrect
    have hlow := LeadsTo.mem_subtrees hleads
    exact ⟨low, hleads, hlow, rfl, some.inj ((hstored low hlow).symm.trans hnode)⟩
  have hkids : ∀ {key axis kids fractions}, split key axis kids fractions ∈ tree.subtrees →
      kids ≠ [] := by
    rintro key axis kids fractions hmem rfl
    have htwo := (hwell _ hmem).1
    simp at htwo
  have hbelow : ∀ {low}, low ∈ tree.subtrees → ∀ node,
      (self.subtreeContains low.id node = true ↔ node ∈ low.ids) :=
    fun hlow node => self.subtreeContains_iff (hstored.sub hlow) (nodup_of_mem_subtrees hnodup hlow)
      node
  have hthin : ∀ node axis children fractions rect, self.node node = some (.split axis children
      fractions) → laid[node]? = some rect → ¬ rect.HasRoom → ∀ child ∈ children, ∀ low,
      self.subtreeContains child low = true → laid[low]? = none := by
    intro node axis children fractions rect hnode hrect hroom child hchild low hcontains
    obtain ⟨split, hleads, hsplit, rfl, hcontent⟩ := hfind hnode hrect
    cases split with
    | tabs key items selected | floating key below => cases hcontent
    | split key ownAxis kids ownFractions =>
      cases hcontent
      obtain ⟨kid, hkid, rfl⟩ := mem_map.mp hchild
      have hkidMem := mem_subtrees_trans hsplit (child_mem_subtrees hkid)
      obtain ⟨last, hlast, rfl⟩ := mem_ids_iff.mp ((hbelow hkidMem low).mp hcontains)
      rw [eq_none_iff_forall_ne_some]
      intro other hother
      obtain ⟨same, hsame, hid⟩ := (hlaid last.id other).mp hother
      obtain rfl : same = last := (hstored.sub (LeadsTo.mem_subtrees hsame)).unique
        (hstored.sub (mem_subtrees_trans hkidMem hlast)) hid
      obtain ⟨through, hto, hfrom⟩ := hsame.through hnodup hsplit (mem_subtrees_of_child hkid hlast)
      have hthrough := (hlaid key through).mpr ⟨_, hto, rfl⟩
      rw [id_split, hthrough, some.injEq] at hrect
      subst hrect
      rcases ReflTransGen.cases_head hfrom with hself | ⟨part, hpart, _⟩
      · cases hself
        have hchild : kid ∈ (split key axis kids fractions).children := hkid
        have hlt := child_ids_length_lt hchild
        rw [mem_subtrees_antisymm hlast (child_mem_subtrees hchild)] at hlt
        exact absurd hlt (lt_irrefl _)
      · rw [split_parts_thin key axis kids fractions hroom] at hpart
        cases hpart
  refine ⟨(hlaid tree.id bounds).mpr ⟨tree, ReflTransGen.refl, rfl⟩, ?_, ?_, ?_, hthin, ?_, ?_⟩
  · intro node rect hrect
    obtain ⟨low, hleads, rfl⟩ := (hlaid node rect).mp hrect
    exact (hbelow tree.mem_subtrees_self low.id).mpr
      (mem_ids_iff.mpr ⟨low, LeadsTo.mem_subtrees hleads, rfl⟩)
  · intro node child rect hnode hrect
    obtain ⟨low, hleads, hlow, rfl, hcontent⟩ := hfind hnode hrect
    cases low with
    | tabs key items selected | split key axis kids fractions => cases hcontent
    | floating key below =>
      cases hcontent
      exact (hlaid below.id rect).mpr ⟨below, ReflTransGen.tail hleads (mem_singleton_self _), rfl⟩
  · intro node axis children fractions rect hnode hrect hroom
    obtain ⟨low, hleads, hlow, rfl, hcontent⟩ := hfind hnode hrect
    cases low with
    | tabs key items selected | floating key below => cases hcontent
    | split key ownAxis kids ownFractions =>
      cases hcontent
      obtain ⟨tiles, hparts, hlength, htiles⟩ := split_parts (hkids hlow) fractions hroom
      refine ⟨tiles, ?_, htiles⟩
      apply ext_getElem
      · rw [length_map, length_map, length_map, hlength]
      · intro index hleft hright
        rw [length_map] at hright
        rw [getElem_map, getElem_map, getElem_map]
        have hkid : index < kids.length := hlength ▸ hright
        exact (hlaid _ _).mpr ⟨kids[index],
          ReflTransGen.tail hleads (hparts ▸ getElem_mem_zip hkid hright), rfl⟩
  · intro hall node axis children fractions rect hnode hrect
    by_contra hroom
    obtain ⟨low, hleads, hlow, rfl, hcontent⟩ := hfind hnode hrect
    cases low with
    | tabs key items selected | floating key below => cases hcontent
    | split key ownAxis kids ownFractions =>
      cases hcontent
      obtain ⟨kid, hkid⟩ := exists_mem_of_ne_nil kids (hkids hlow)
      have hkidMem := mem_subtrees_trans hlow (child_mem_subtrees hkid)
      obtain ⟨other, hother⟩ := hall kid.id
        ((hbelow tree.mem_subtrees_self kid.id).mpr (mem_ids_iff.mpr ⟨kid, hkidMem, rfl⟩))
      rw [hthin key axis _ fractions rect hnode hrect hroom kid.id (mem_map_of_mem hkid) kid.id
        ((hbelow hkidMem kid.id).mpr kid.id_mem_ids)] at hother
      cases hother
  · intro hroom node hcontains
    have hdown : ∀ sub rect, self.LeadsTo centralNode (tree, bounds) (sub, rect) →
        ∀ low ∈ sub.subtrees, ∃ other, self.LeadsTo centralNode (tree, bounds) (low, other) := by
      intro sub
      induction sub using below_induction with
      | step sub ih =>
        intro rect hleads low hlow
        rw [subtrees_eq] at hlow
        rcases mem_cons.mp hlow with rfl | hbelow
        · exact ⟨rect, hleads⟩
        · obtain ⟨child, hchild, hmem⟩ := mem_flatMap.mp hbelow
          have hsplit : ∀ key axis kids fractions, sub = .split key axis kids fractions →
              rect.HasRoom := by
            rintro key axis kids fractions rfl
            exact hroom key axis _ fractions rect (hstored _ (LeadsTo.mem_subtrees hleads))
              ((hlaid _ _).mpr ⟨_, hleads, rfl⟩)
          obtain ⟨part, hpart⟩ := self.exists_part centralNode hchild hsplit
          exact ih child hchild part (ReflTransGen.tail hleads hpart) low hmem
    obtain ⟨low, hlow, rfl⟩ := mem_ids_iff.mp ((hbelow tree.mem_subtrees_self node).mp hcontains)
    obtain ⟨rect, hleads⟩ := hdown tree bounds ReflTransGen.refl low hlow
    exact ⟨rect, (hlaid low.id rect).mpr ⟨low, hleads, rfl⟩⟩

end Laid

/-- In a valid graph, the layout of a node that has a place in a space assigns its
rectangle to the node and hands rectangles down as described; rectangles computed
before stay where none is assigned. -/
theorem computeLayout_laidOut (hvalid : self.validate = .ok ()) {space : DockSpaceId}
    {root : DockNodeId} (hroot : (self.rootForNodeInSpace space root).isSome = true)
    (bounds : Bounds) :
    self.LaidOut root bounds (self.computeLayout root bounds ∅) ∧
      ∀ (out : LayoutBounds) (node : DockNodeId), (self.computeLayout root bounds out)[node]? =
        ((self.computeLayout root bounds ∅)[node]?).or out[node]? := by
  obtain ⟨forest, hholds, hforest⟩ := validate_ok hvalid
  obtain ⟨tree, htree, rfl⟩ :=
    SpaceTrees.mem_ids_iff.mp (hholds.rootForNodeInSpace_isSome_iff.mp hroot)
  obtain ⟨top, htop, hmem⟩ := mem_flatMap.mp htree
  have hstored := hholds.sub_stored htree
  have hnodup := nodup_of_mem_subtrees (hholds.tree_nodup htop) hmem
  have hwell : tree.WellFormed := by
    have htopWell : top.WellFormed := by
      rcases mem_append.mp htop with hin | hin
      · exact hforest.root space top (mem_toList.mp hin)
      · obtain ⟨entry, hentry, rfl⟩ := mem_map.mp hin
        exact (hforest.floatings space entry hentry).tree
    exact fun sub hsub => htopWell sub (mem_subtrees_trans hmem hsub)
  refine ⟨laidOut_of_get_iff hstored hnodup hwell (get_computeLayout_iff hstored hnodup), ?_⟩
  intro out node
  rw [computeLayout, computeLayout, computeLayoutWithCentral_eq, computeLayoutWithCentral_eq]
  exact get_foldl_insert _ out node

end DockGraph

namespace GraphLayoutWitness

/-- A stack beside two more, of which the ones on the right have no share. -/
def squeezed : DockGraph :=
  let (left, graph) := DockGraph.new.insertNode (.tabs ["left"] (some "left"))
  let (upper, graph) := graph.insertNode (.tabs ["upper"] (some "upper"))
  let (lower, graph) := graph.insertNode (.tabs ["lower"] (some "lower"))
  let (right, graph) := graph.insertNode (.split .vertical [upper, lower] [1 / 2, 1 / 2])
  let (root, graph) := graph.insertNode (.split .horizontal [left, right] [1, 0])
  graph.setRoot "main" root

def window : Bounds := ⟨⟨0, 0⟩, ⟨400, 300⟩⟩

theorem squeezed_valid : squeezed.validate = .ok () := by decide +kernel

end GraphLayoutWitness

open GraphLayoutWitness in
theorem computeLayout_laidOut_squeezed :
    squeezed.validate = .ok () ∧ (squeezed.rootForNodeInSpace "main" 4).isSome = true ∧
      squeezed.LaidOut 4 window (squeezed.computeLayout 4 window ∅) ∧
      (squeezed.computeLayout 4 window ∅)[3]? = some ⟨⟨400, 0⟩, ⟨0, 300⟩⟩ := by
  have hroot : (squeezed.rootForNodeInSpace "main" 4).isSome = true := by decide
  exact ⟨squeezed_valid, hroot, (DockGraph.computeLayout_laidOut squeezed_valid hroot window).1,
    by decide +kernel⟩

open GraphLayoutWitness in
/-- The stacks in a pane of no width get no rectangle. -/
theorem computeLayout_not_total : ¬ ∀ (graph : DockGraph) (space : DockSpaceId)
    (root : DockNodeId) (bounds : Bounds) (out : LayoutBounds), graph.validate = .ok () →
      graph.root space = some root → 0 < bounds.size.width → 0 < bounds.size.height →
        ∀ node, graph.subtreeContains root node = true →
          ∃ rect, (graph.computeLayout root bounds out)[node]? = some rect := by
  intro h
  obtain ⟨rect, hrect⟩ := h squeezed "main" 4 window ∅ squeezed_valid (by decide)
    (by decide) (by decide) 1 (by decide)
  have hnone : (squeezed.computeLayout 4 window ∅)[1]? = none := by decide +kernel
  rw [hnone] at hrect
  cases hrect

end OpenGpui.Docking
