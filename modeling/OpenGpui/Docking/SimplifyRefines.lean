/-
The simplification of the arena computes the simplification of the tree it stores
and touches no node outside that tree.
-/
import OpenGpui.Docking.TreeSimplify

namespace OpenGpui.Docking

open DockTree UiCore SlotMap Option

/-- What a pass over part of the arena may change: nodes among `touched`, none of
which is added or removed. -/
structure Within (before after : DockNodes) (touched : List DockNodeId) : Prop where
  frame : ∀ key ∉ touched, after.get key = before.get key
  stored : ∀ key, (after.get key).isSome = (before.get key).isSome
  next : after.next = before.next

namespace Within

variable {before middle after : DockNodes} {touched more : List DockNodeId}

theorem refl (nodes : DockNodes) (touched : List DockNodeId) : Within nodes nodes touched :=
  ⟨fun _ _ => rfl, fun _ => rfl, rfl⟩

theorem mono (h : Within before after touched) (hsub : ∀ key ∈ touched, key ∈ more) :
    Within before after more :=
  ⟨fun key hkey => h.frame key fun hmem => hkey (hsub key hmem), h.stored, h.next⟩

theorem trans (h : Within before middle touched) (h' : Within middle after touched) :
    Within before after touched :=
  ⟨fun key hkey => (h'.frame key hkey).trans (h.frame key hkey),
    fun key => (h'.stored key).trans (h.stored key), h'.next.trans h.next⟩

theorem set (nodes : DockNodes) (key : DockNodeId) (node : DockNode) (hkey : key ∈ touched) :
    Within nodes (nodes.set key node) touched := by
  refine ⟨?_, ?_, rfl⟩
  · intro other hother
    exact get_set_ne _ _ fun heq => hother (heq ▸ hkey)
  · intro other
    rw [get_set]
    split <;> cases nodes.get other <;> rfl

end Within

theorem DockTree.Stored.within {before after : DockNodes} {touched : List DockNodeId}
    {tree : DockTree} (h : Stored before tree) (hwithin : Within before after touched)
    (hdisjoint : ∀ key ∈ tree.ids, key ∉ touched) : Stored after tree :=
  h.congr fun key hkey => hwithin.frame key (hdisjoint key hkey)

/-- The arena's view of a child with its share. -/
def shareIds (entry : DockTree × Scalar) : DockNodeId × Scalar := (entry.1.id, entry.2)

namespace DockNodes

section Flatten

variable {nodes : DockNodes} {axis : SplitAxis} {kept : List (DockTree × Scalar)}

theorem flattenPass_eq (hstored : ∀ entry ∈ kept, Stored nodes entry.1) :
    nodes.flattenPass axis (kept.map shareIds) =
      (kept.any fun entry => entry.1.splitAxis == some axis, (flatten axis kept).map shareIds) := by
  induction kept with
  | nil => rfl
  | cons entry rest ih =>
    have hrest := ih fun other hother => hstored other (List.mem_cons_of_mem _ hother)
    obtain ⟨tree, share⟩ := entry
    have hget : nodes.get tree.id = some tree.node := (hstored _ List.mem_cons_self).get
    rw [List.map_cons, shareIds, flattenPass, hrest]
    simp only [hget]
    cases tree with
    | tabs id items selected | floating id child =>
      simp [node, flatten, flattenShare, splitAxis, shareIds]
    | split id childAxis kids fractions =>
      by_cases h : childAxis = axis
      · subst h
        simp only [node, ne_eq, not_true_eq_false, if_false, flatten, List.flatMap_cons,
          flattenShare, List.map_append, List.any_cons, splitAxis, beq_self_eq_true,
          Bool.true_or, grandShares, Prod.mk.injEq, true_and]
        congr 1
        rw [List.zip_map_left]
        rfl
      · simp [node, flatten, flattenShare, splitAxis, shareIds, h]

theorem flatten_of_ne (h : ∀ entry ∈ kept, entry.1.splitAxis ≠ some axis) :
    flatten axis kept = kept := by
  conv_rhs => rw [← List.flatMap_singleton' kept]
  exact List.flatMap_congr fun entry hentry => flattenShare_of_ne (h entry hentry)

variable (axis) in
/-- One pass is enough on settled children; a second one finds nothing to do. -/
theorem flattenSameAxisSplits_eq (hstored : ∀ entry ∈ kept, Stored nodes entry.1)
    (hsettled : ∀ entry ∈ kept, Settled entry.1)
    (hflat : ∀ entry ∈ flatten axis kept, Stored nodes entry.1) (fuel : Nat) :
    nodes.flattenSameAxisSplits axis (fuel + 1) (kept.map shareIds) =
      (flatten axis kept).map shareIds := by
  rw [flattenSameAxisSplits, flattenPass_eq hstored]
  simp only
  split
  · cases fuel with
    | zero => rfl
    | succ fuel =>
      have hnone : ∀ entry ∈ flatten axis kept, entry.1.splitAxis ≠ some axis :=
        fun entry hentry => (flatten_settled _ hsettled entry hentry).2
      have hany : ((flatten axis kept).any fun entry => entry.1.splitAxis == some axis) =
          false := by
        rw [List.any_eq_false]
        intro entry hentry
        simpa using hnone entry hentry
      rw [flattenSameAxisSplits, flattenPass_eq hflat, hany, flatten_of_ne hnone]
      rfl
  · rfl

end Flatten

variable {nodes : DockNodes}

/-- The children of a split are simplified independently of each other. -/
theorem simplifyChildren_eq {fuel : Nat} {kids : List DockTree}
    (hsimplify : ∀ kid ∈ kids, ∀ nodes, Stored nodes kid →
      ∃ after, simplifySubtree fuel kid.id nodes = (kid.simplify.map DockTree.id, after) ∧
        (∀ kept, kid.simplify = some kept → Stored after kept) ∧
        Within nodes after kid.ids) (hstored : ∀ kid ∈ kids, Stored nodes kid)
    (hnodup : (kids.flatMap ids).Nodup) (fractions : List Scalar) :
    ∃ after, simplifyChildren (simplifySubtree fuel) (childShares (kids.map DockTree.id) fractions)
        nodes = ((keepShares (kids.map simplify) fractions).map shareIds, after) ∧
      (∀ entry ∈ keepShares (kids.map simplify) fractions, Stored after entry.1) ∧
      Within nodes after (kids.flatMap ids) := by
  induction kids generalizing nodes fractions with
  | nil => exact ⟨nodes, rfl, by simp [keepShares], Within.refl _ _⟩
  | cons kid rest ih =>
    obtain ⟨hkid, hrest, hdisjoint⟩ := List.nodup_append.mp hnodup
    obtain ⟨middle, hfirst, hkept, hwithin⟩ :=
      hsimplify kid List.mem_cons_self nodes (hstored kid List.mem_cons_self)
    -- the later children lie outside the first one, so the pass has not touched them
    have hlater : ∀ other ∈ rest, Stored middle other := by
      intro other hother
      apply (hstored other (List.mem_cons_of_mem _ hother)).within hwithin
      intro key hkey hmem
      exact hdisjoint key hmem key (List.mem_flatMap.mpr ⟨other, hother, hkey⟩) rfl
    obtain ⟨after, hchildren, hstoredRest, hwithinRest⟩ :=
      ih (fun other hother => hsimplify other (List.mem_cons_of_mem _ hother)) hlater hrest
        fractions.tail
    have hwhole : Within nodes after (kid.ids ++ rest.flatMap ids) :=
      (hwithin.mono fun key h => List.mem_append_left _ h).trans
        (hwithinRest.mono fun key h => List.mem_append_right _ h)
    refine ⟨after, ?_, ?_, hwhole⟩
    · rw [List.map_cons, childShares, simplifyChildren, hfirst, List.map_cons]
      cases hsome : kid.simplify with
      | none => simpa [keepShares] using hchildren
      | some kept => simp [keepShares, hchildren, shareIds]
    · intro entry hentry
      rw [List.map_cons] at hentry
      cases hsome : kid.simplify with
      | none =>
        rw [hsome] at hentry
        exact hstoredRest entry hentry
      | some kept =>
        rw [hsome] at hentry
        rcases List.mem_cons.mp hentry with rfl | hlow
        · apply (hkept kept hsome).within hwithinRest
          intro key hkey hmem
          have hids := simplify_ids_sublist kid
          rw [hsome, toList_some, List.flatMap_singleton] at hids
          exact hdisjoint key (hids.subset hkey) key hmem rfl
        · exact hstoredRest entry hlow

theorem stored_flatten (axis : SplitAxis) {kept : List (DockTree × Scalar)}
    (hstored : ∀ entry ∈ kept, Stored nodes entry.1) (hsettled : ∀ entry ∈ kept, Settled entry.1) :
    ∀ entry ∈ flatten axis kept, Stored nodes entry.1 := by
  intro entry hentry
  have hmem : entry.1 ∈ (flatten axis kept).map Prod.fst := List.mem_map_of_mem hentry
  rw [flatten_map_fst _ hsettled] at hmem
  obtain ⟨⟨parent, share⟩, hparent, htree⟩ := List.mem_flatMap.mp hmem
  have hbelow : Stored nodes parent := hstored _ hparent
  by_cases h : parent.splitAxis = some axis
  · rw [if_pos h] at htree
    exact hbelow.child htree
  · rw [if_neg h, List.mem_singleton] at htree
    rw [htree]
    exact hbelow

/-- What remains of a split in the arena is what remains of it in the tree. -/
theorem settleSplit_eq (fuel : Nat) {id : DockNodeId} {axis : SplitAxis}
    {kept : List (DockTree × Scalar)} {old : List DockNodeId} {oldFractions : List Scalar}
    (hget : nodes.get id = some (.split axis old oldFractions))
    (hstored : ∀ entry ∈ kept, Stored nodes entry.1) (hsettled : ∀ entry ∈ kept, Settled entry.1)
    (hfresh : id ∉ kept.flatMap fun entry => entry.1.ids) :
    ∃ after, nodes.settleSplit (fuel + 1) id axis (kept.map shareIds) =
        ((settle id axis kept).map DockTree.id, after) ∧
      (∀ tree, settle id axis kept = some tree → Stored after tree) ∧
      Within nodes after [id] := by
  rcases settle_cases id axis hsettled with
    ⟨rfl, hnone⟩ | ⟨only, rfl, honly⟩ | ⟨htwo, hsplit⟩
  · exact ⟨nodes, by rfl, by simp [hnone], Within.refl _ _⟩
  · refine ⟨nodes, by rfl, ?_, Within.refl _ _⟩
    intro tree htree
    cases htree
    exact hstored only (List.mem_singleton_self _)
  · have hflatStored := stored_flatten axis hstored hsettled
    have hflat := flattenSameAxisSplits_eq axis hstored hsettled hflatStored fuel
    have hlen := length_le_flatten axis hsettled
    have hids := flatten_ids_sublist axis hsettled
    let tree := split id axis ((flatten axis kept).map Prod.fst)
      (normalizeSplitFractions ((flatten axis kept).map Prod.snd))
    refine ⟨nodes.set id tree.node, ?_, ?_, Within.set _ _ _ (List.mem_singleton_self _)⟩
    · obtain ⟨first, second, rest, hkept⟩ := exists_two_of_length htwo
      obtain ⟨flatFirst, flatSecond, flatRest, hlist⟩ := exists_two_of_length (htwo.trans hlen)
      rw [hsplit, hkept, List.map_cons, List.map_cons, settleSplit, ← List.map_cons,
        ← List.map_cons, ← hkept, hflat]
      · simp only [setSplitChildren, hget]
        simp [tree, hlist, node, shareIds, Function.comp_def]
      · simp
      · simp
    · intro other hother
      rw [hsplit] at hother
      cases hother
      apply Stored.of_children
      · exact get_set_self _ hget
      · intro child hchild
        obtain ⟨entry, hentry, rfl⟩ := List.mem_map.mp hchild
        apply (hflatStored entry hentry).congr
        intro key hkey
        apply get_set_ne
        rintro rfl
        exact hfresh (hids.subset (List.mem_flatMap.mpr
          ⟨entry.1, List.mem_map_of_mem hentry, hkey⟩))

theorem simplifySubtree_split {id : DockNodeId} {axis : SplitAxis}
    {children : List DockNodeId} {fractions : List Scalar}
    (hget : nodes.get id = some (.split axis children fractions)) (fuel : Nat) :
    simplifySubtree (fuel + 1) id nodes =
      let result := simplifyChildren (simplifySubtree fuel) (childShares children fractions) nodes
      result.2.settleSplit fuel id axis result.1 := by
  rw [simplifySubtree, hget]

/-- Simplifying a stored tree in the arena is simplifying the tree. -/
theorem simplifySubtree_eq {tree : DockTree} (hstored : Stored nodes tree)
    (hnodup : tree.ids.Nodup) {fuel : Nat} (hfuel : tree.ids.length ≤ fuel) :
    ∃ after, simplifySubtree fuel tree.id nodes = (tree.simplify.map DockTree.id, after) ∧
      (∀ kept, tree.simplify = some kept → Stored after kept) ∧
      Within nodes after tree.ids := by
  induction tree using DockTree.induction generalizing nodes fuel with
  | tabs id items selected =>
    obtain ⟨rest, rfl, _⟩ := DockGraph.descend hfuel
    have hget : nodes.get id = some (.tabs items selected) := hstored.get
    refine ⟨nodes, ?_, ?_, Within.refl _ _⟩
    · rw [id_tabs, simplifySubtree, hget, simplify]
      by_cases h : items.isEmpty <;> simp [h]
    · intro kept hkept
      rw [simplify] at hkept
      split at hkept
      · cases hkept
      · cases hkept
        exact hstored
  | floating id child ih =>
    obtain ⟨rest, rfl, hrest⟩ := DockGraph.descend hfuel
    have hchild : child ∈ (floating id child).children := List.mem_singleton_self _
    have hget : nodes.get id = some (.floating child.id) := hstored.get
    rw [ids_floating, List.nodup_cons] at hnodup
    obtain ⟨after, hsimplify, hkept, hwithin⟩ :=
      ih (hstored.child hchild) hnodup.2 (hrest child hchild)
    have hafter : after.get id = some (.floating child.id) := (hwithin.frame id hnodup.1).trans hget
    have hwhole : Within nodes after (floating id child).ids :=
      hwithin.mono fun key hkey => by rw [ids_floating]; exact List.mem_cons_of_mem _ hkey
    cases hsome : child.simplify with
    | none =>
      refine ⟨after, ?_, ?_, hwhole⟩
      · simp [simplifySubtree, hget, hsimplify, hsome, simplify]
      · simp [simplify, hsome]
    | some low =>
      refine ⟨after.setFloatingChild id low.id, ?_, ?_, ?_⟩
      · simp [simplifySubtree, hget, hsimplify, hsome, simplify]
      · intro kept heq
        rw [simplify, hsome] at heq
        cases heq
        have hids := simplify_ids_sublist child
        rw [hsome, toList_some, List.flatMap_singleton] at hids
        apply Stored.of_children
        · simp [setFloatingChild, hafter, get_set_self _ hafter, node]
        · intro other hother
          obtain rfl := List.mem_singleton.mp hother
          apply (hkept other hsome).congr
          intro key hkey
          rw [setFloatingChild, hafter]
          apply get_set_ne
          rintro rfl
          exact hnodup.1 (hids.subset hkey)
      · rw [setFloatingChild, hafter]
        exact hwhole.trans (Within.set _ _ _ (by simp))
  | split id axis kids fractions ih =>
    obtain ⟨rest, rfl, hrest⟩ := DockGraph.descend hfuel
    have hget : nodes.get id = some (.split axis (kids.map DockTree.id) fractions) := hstored.get
    rw [ids_split, List.nodup_cons] at hnodup
    have hkidNodup : ∀ kid ∈ kids, kid.ids.Nodup := fun kid hkid =>
      (List.nodup_flatMap.mp hnodup.2).1 kid hkid
    obtain ⟨middle, hchildren, hkept, hwithin⟩ :=
      simplifyChildren_eq (fun kid hkid nodes hkidStored =>
          ih kid hkid hkidStored (hkidNodup kid hkid) (hrest kid hkid))
        (fun kid hkid => hstored.child hkid) hnodup.2 fractions
    have hsettled := kept_settled fractions fun kid (_ : kid ∈ kids) tree h => simplify_settled h
    have hmiddle : middle.get id = some (.split axis (kids.map DockTree.id) fractions) :=
      (hwithin.frame id hnodup.1).trans hget
    have hfresh : id ∉ (keepShares (kids.map simplify) fractions).flatMap
        fun entry => entry.1.ids := by
      rw [flatMap_keepShares]
      intro hmem
      obtain ⟨kid, hkid, hlow⟩ := List.mem_flatMap.mp hmem
      exact hnodup.1 (List.mem_flatMap.mpr ⟨kid, hkid, (simplify_ids_sublist kid).subset hlow⟩)
    have hwhole : Within nodes middle (split id axis kids fractions).ids :=
      hwithin.mono fun key hkey => by rw [ids_split]; exact List.mem_cons_of_mem _ hkey
    cases rest with
    | zero =>
      have hnil : kids = [] := by
        cases kids with
        | nil => rfl
        | cons kid others =>
          have hle := hrest kid List.mem_cons_self
          rw [ids_eq, List.length_cons] at hle
          omega
      subst hnil
      refine ⟨middle, ?_, ?_, hwhole⟩
      · rw [id_split, simplifySubtree_split hget, hchildren, simplify]
        rfl
      · simp [simplify, keepShares, settle]
    | succ fuel =>
      obtain ⟨after, hsettle, hstoredSettle, hwithinSettle⟩ :=
        settleSplit_eq fuel hmiddle hkept hsettled hfresh
      refine ⟨after, ?_, ?_, ?_⟩
      · rw [id_split, simplifySubtree_split hget, hchildren, simplify]
        exact hsettle
      · intro tree htree
        rw [simplify] at htree
        exact hstoredSettle tree htree
      · apply hwhole.trans
        apply hwithinSettle.mono
        intro key hkey
        rw [List.mem_singleton.mp hkey]
        exact id_mem_ids (split id axis kids fractions)

end DockNodes

end OpenGpui.Docking
