/-
Merging one space of a forest into another: the root tree and the floating trees pass
from the source space to the target space, and every stack keeps its items together.
-/
import OpenGpui.Docking.ValidSimplify
import OpenGpui.Docking.OpRefines

namespace OpenGpui.Docking

open List SpaceTrees Function

open DockTree

namespace SpaceTrees

variable (self : SpaceTrees)

/-- Some stack of the space has these items side by side, in this order. -/
def Carries (items : List DockItemId) : Prop := ∃ entry ∈ self.leaves, items <:+: entry.2

variable {entry : Leaf}

theorem Carries.of_mem {self : SpaceTrees} (h : entry ∈ self.leaves) : self.Carries entry.2 :=
  ⟨entry, h, infix_rfl⟩

theorem leaves_eq_append : self.leaves = self.root.toList.flatMap DockTree.leaves ++
      self.floatings.flatMap fun entry => entry.tree.leaves := by
  rw [leaves, trees, flatMap_append, flatMap_map]

/-- Simplification drops empty stacks only. -/
theorem mem_simplify_leaves {self : SpaceTrees} (h : entry ∈ self.leaves)
    (hne : entry.2 ≠ []) : entry ∈ self.simplify.leaves := by
  rw [simplify_leaves, mem_filter]
  exact ⟨h, by simpa using hne⟩

end SpaceTrees

namespace DockForest

variable {before middle after forest : DockForest} {source target space : DockSpaceId}

/-- Between the two forests stacks went over from the source space to the target space,
some of them into other stacks, and nothing was lost. -/
structure Passes (before after : DockForest) (source target : DockSpaceId) : Prop where
  items : ((after target).items ++ (after source).items).Perm
    ((before target).items ++ (before source).items)
  stays : ∀ entry ∈ (before source).leaves, entry.2 ≠ [] →
    entry ∈ (after source).leaves ∨ (after target).Carries entry.2
  kept : ∀ entry ∈ (before target).leaves, entry.2 ≠ [] → (after target).Carries entry.2
  others : ∀ space, space ≠ source → space ≠ target → after space = before space

namespace Passes

theorem refl (forest : DockForest) (source target : DockSpaceId) :
    forest.Passes forest source target where
  items := List.Perm.refl _
  stays _ hentry _ := .inl hentry
  kept _ hentry _ := SpaceTrees.Carries.of_mem hentry
  others _ _ _ := rfl

/-- What a stack of the target space carries it still carries later. -/
theorem carries (h : before.Passes after source target) {items : List DockItemId}
    (hne : items ≠ []) (hcarries : (before target).Carries items) :
    (after target).Carries items := by
  obtain ⟨entry, hentry, hinfix⟩ := hcarries
  have hentryNe : entry.2 ≠ [] := by
    intro hnil
    rw [hnil] at hinfix
    exact hne (eq_nil_of_infix_nil hinfix)
  obtain ⟨other, hother, hwithin⟩ := h.kept entry hentry hentryNe
  exact ⟨other, hother, hinfix.trans hwithin⟩

theorem trans (h : before.Passes middle source target) (h' : middle.Passes after source target) :
    before.Passes after source target where
  items := h'.items.trans h.items
  stays entry hentry hne := by
    rcases h.stays entry hentry hne with hstays | hcarries
    · exact h'.stays entry hstays hne
    · exact .inr (h'.carries hne hcarries)
  kept entry hentry hne := h'.carries hne (h.kept entry hentry hne)
  others space hsource htarget :=
    (h'.others space hsource htarget).trans (h.others space hsource htarget)

/-- Stacks that only change their place. -/
theorem of_leaves (hperm : ((after target).leaves ++ (after source).leaves).Perm
      ((before target).leaves ++ (before source).leaves))
    (htarget : ∀ entry ∈ (before target).leaves, entry ∈ (after target).leaves)
    (hothers : ∀ space, space ≠ source → space ≠ target → after space = before space) :
    before.Passes after source target where
  items := by
    have hitems := hperm.flatMap_right Prod.snd
    rw [flatMap_append, flatMap_append] at hitems
    simpa only [items_eq] using hitems
  stays entry hentry _ := by
    have hmem := hperm.mem_iff.mpr (mem_append_right _ hentry)
    rcases mem_append.mp hmem with hgone | hstays
    · exact .inr (SpaceTrees.Carries.of_mem hgone)
    · exact .inl hstays
  kept entry hentry _ := SpaceTrees.Carries.of_mem (htarget entry hentry)
  others := hothers

theorem simplifySpace (forest : DockForest) (source target : DockSpaceId)
    (hspace : space = source ∨ space = target) :
    forest.Passes (forest.simplifySpace space) source target := by
  have hitems : ∀ other, (forest.simplifySpace space other).items = (forest other).items := by
    intro other
    rw [DockForest.simplifySpace]
    by_cases hother : other = space
    · subst hother
      rw [update_self, SpaceTrees.simplify_items]
    · rw [update_of_ne hother]
  have hleaves : ∀ other, ∀ entry ∈ (forest other).leaves, entry.2 ≠ [] →
      entry ∈ (forest.simplifySpace space other).leaves := by
    intro other entry hentry hne
    rw [DockForest.simplifySpace]
    by_cases hother : other = space
    · subst hother
      rw [update_self]
      exact mem_simplify_leaves hentry hne
    · rwa [update_of_ne hother]
  constructor
  · rw [hitems, hitems]
  · exact fun entry hentry hne => .inl (hleaves source entry hentry hne)
  · exact fun entry hentry hne =>
      SpaceTrees.Carries.of_mem (hleaves target entry hentry hne)
  · intro other hsource htarget
    rw [DockForest.simplifySpace, update_of_ne]
    rintro rfl
    rcases hspace with rfl | rfl
    · exact hsource rfl
    · exact htarget rfl

/-- Both spaces are simplified after a step of a merge. -/
theorem simplifySpaces (h : before.Passes after source target) :
    before.Passes ((after.simplifySpace source).simplifySpace target) source target :=
  (h.trans (simplifySpace after source target (.inl rfl))).trans
    (simplifySpace _ source target (.inr rfl))

theorem itemsDistinct (h : before.Passes after source target) (hne : source ≠ target)
    (hdistinct : before.ItemsDistinct) : after.ItemsDistinct := by
  have hboth : ((before target).items ++ (before source).items).Nodup := by
    rw [nodup_append]
    refine ⟨hdistinct.nodup target, hdistinct.nodup source, ?_⟩
    rintro item htarget other hsource rfl
    exact hne (hdistinct.apart hsource htarget)
  have hafter := h.items.nodup_iff.mpr hboth
  rw [nodup_append] at hafter
  -- an item of one of the two spaces was in one of them before
  have horigin : ∀ space item, space = source ∨ space = target → item ∈ (after space).items →
      item ∈ (before target).items ∨ item ∈ (before source).items := by
    intro space item hspace hitem
    rw [← mem_append, ← h.items.mem_iff, mem_append]
    rcases hspace with rfl | rfl
    · exact .inr hitem
    · exact .inl hitem
  have hfar : ∀ first second item, first = source ∨ first = target → second ≠ source →
      second ≠ target → item ∈ (after first).items → item ∉ (after second).items := by
    intro first second item hfirst hsource htarget hitem hother
    rw [h.others second hsource htarget] at hother
    rcases horigin first item hfirst hitem with hin | hin
    · exact htarget (hdistinct.apart hother hin)
    · exact hsource (hdistinct.apart hother hin)
  have hcases : ∀ space : DockSpaceId,
      (space = source ∨ space = target) ∨ (space ≠ source ∧ space ≠ target) := by
    intro space
    tauto
  constructor
  · intro space
    rcases hcases space with (rfl | rfl) | ⟨hsource, htarget⟩
    · exact hafter.2.1
    · exact hafter.1
    · rw [h.others space hsource htarget]
      exact hdistinct.nodup space
  · intro first second item hfirst hsecond
    rcases hcases first with hnear | ⟨hsource, htarget⟩
    · rcases hcases second with hnear' | ⟨hsource, htarget⟩
      · rcases hnear with rfl | rfl <;> rcases hnear' with rfl | rfl
        · rfl
        · exact (hafter.2.2 item hsecond item hfirst rfl).elim
        · exact (hafter.2.2 item hfirst item hsecond rfl).elim
        · rfl
      · exact (hfar first second item hnear hsource htarget hfirst hsecond).elim
    · rcases hcases second with hnear' | ⟨hsource', htarget'⟩
      · exact (hfar second first item hnear' hsource htarget hsecond hfirst).elim
      · rw [h.others first hsource htarget] at hfirst
        rw [h.others second hsource' htarget'] at hsecond
        exact hdistinct.apart hfirst hsecond

end Passes

/-- The root tree of the source space becomes the root of the target space. -/
theorem passes_moveRoot (hne : source ≠ target) {tree : DockTree}
    (htree : (forest source).root = some tree) (hroot : (forest target).root = none) :
    forest.Passes ((forest.removeRoot source).placeRoot target tree) source target := by
  have hsource : ((forest.removeRoot source).placeRoot target tree source).leaves =
      (forest source).floatings.flatMap fun entry => entry.tree.leaves := by
    rw [placeRoot, update_of_ne hne, removeRoot, update_self, leaves_eq_append]
    rfl
  have htarget : ((forest.removeRoot source).placeRoot target tree target).leaves =
      tree.leaves ++ (forest target).leaves := by
    rw [placeRoot, removeRoot, update_of_ne hne.symm,
      SpaceTrees.placeRoot, leaves_eq_append, leaves_eq_append, hroot]
    simp
  apply Passes.of_leaves
  · rw [hsource, htarget, (forest source).leaves_eq_append, htree, Option.toList_some,
      flatMap_singleton, ← append_assoc]
    exact perm_append_comm.append_right _
  · intro entry hentry
    rw [htarget]
    exact mem_append_right _ hentry
  · intro space hspace hother
    rw [placeRoot, update_of_ne hother, removeRoot, update_of_ne hspace]

/-- The floating trees of the source space come behind those of the target space. -/
def moveFloatings (forest : DockForest) (source target : DockSpaceId) : DockForest :=
  (forest.setFloatings source []).setFloatings target
    ((forest target).floatings ++ (forest source).floatings)

theorem moveFloatings_source (hne : source ≠ target) : forest.moveFloatings source target source =
    { forest source with floatings := [] } := by
  rw [moveFloatings, setFloatings, update_of_ne hne, setFloatings, update_self]

theorem moveFloatings_target (hne : source ≠ target) : forest.moveFloatings source target target =
    { forest target with
      floatings := (forest target).floatings ++ (forest source).floatings } := by
  rw [moveFloatings, setFloatings, update_self, setFloatings, update_of_ne hne.symm]

theorem moveFloatings_of_ne (hsource : space ≠ source) (htarget : space ≠ target) :
    forest.moveFloatings source target space = forest space := by
  rw [moveFloatings, setFloatings, update_of_ne htarget, setFloatings, update_of_ne hsource]

theorem passes_moveFloatings (hne : source ≠ target) :
    forest.Passes (forest.moveFloatings source target) source target := by
  have htarget : (forest.moveFloatings source target target).leaves = (forest target).leaves ++
      (forest source).floatings.flatMap fun entry => entry.tree.leaves := by
    rw [moveFloatings_target hne, leaves_eq_append, leaves_eq_append, flatMap_append, append_assoc]
  apply Passes.of_leaves
  · rw [htarget, moveFloatings_source hne, leaves_eq_append { forest source with
      floatings := [] }, (forest source).leaves_eq_append, flatMap_nil, append_nil,
      append_assoc]
    exact perm_append_comm.append_left _
  · intro entry hentry
    rw [htarget]
    exact mem_append_left _ hentry
  · exact fun space hspace hother => moveFloatings_of_ne hspace hother

theorem Valid.moveFloatings (h : forest.Valid) (hne : source ≠ target) :
    (forest.moveFloatings source target).Valid := by
  have hroot : ∀ space, (forest.moveFloatings source target space).root = (forest space).root ∧
      (forest.moveFloatings source target space).central = (forest space).central := by
    intro space
    by_cases hsource : space = source
    · rw [hsource, moveFloatings_source hne]
      exact ⟨rfl, rfl⟩
    · by_cases htarget : space = target
      · rw [htarget, moveFloatings_target hne]
        exact ⟨rfl, rfl⟩
      · rw [moveFloatings_of_ne hsource htarget]
        exact ⟨rfl, rfl⟩
  constructor
  · intro space tree htree
    rw [(hroot space).1] at htree
    exact h.root space tree htree
  · intro space entry hentry
    by_cases hsource : space = source
    · rw [hsource, moveFloatings_source hne] at hentry
      cases hentry
    · by_cases htarget : space = target
      · rw [htarget, moveFloatings_target hne] at hentry
        rcases mem_append.mp hentry with hown | hcome
        · exact h.floatings target entry hown
        · exact h.floatings source entry hcome
      · rw [moveFloatings_of_ne hsource htarget] at hentry
        exact h.floatings space entry hentry
  · intro space central node hcentral hnode
    rw [(hroot space).2] at hcentral
    rw [(hroot space).1]
    exact h.central space central node hcentral hnode
  · exact (passes_moveFloatings hne).itemsDistinct hne h.items

variable {tabs targetTabs : DockNodeId} {items own : List DockItemId}
  {selected ownSelected : Option DockItemId}

/-- The root stack of the source space is emptied into a stack of the target space. -/
theorem passes_moveRootTabs (hproper : forest.Proper) (hne : source ≠ target)
    (hroot : (forest source).root = some (.tabs tabs items selected))
    (htarget : .tabs targetTabs own ownSelected ∈ (forest target).subtrees)
    (next : Option DockItemId) :
    forest.Passes ((forest.removeRoot source).setTabs targetTabs (own ++ items) next)
      source target := by
  obtain ⟨front, back, hleaves, hrewrite⟩ := leaves_rewrite (hproper.nodup target) htarget
  have hnew := hrewrite fun _ => .tabs targetTabs (own ++ items) next
  rw [leaves_tabs] at hleaves hnew
  have hkey : targetTabs ∈ (forest target).ids := mem_ids_iff.mpr ⟨_, htarget, rfl⟩
  have hids : ∀ space, ∀ key ∈ (forest.removeRoot source space).ids, key ∈ (forest space).ids := by
    intro space key hmem
    rw [removeRoot] at hmem
    by_cases hspace : space = source
    · subst hspace
      rw [SpaceTrees.ids, SpaceTrees.trees, flatMap_append] at hmem ⊢
      exact mem_append_right _ (by simpa using hmem)
    · rwa [update_of_ne hspace] at hmem
  have hother : ∀ space, space ≠ target → (forest.removeRoot source).setTabs targetTabs (own ++
      items) next space = forest.removeRoot source space := by
    intro space hspace
    apply SpaceTrees.rewrite_of_not_mem
    exact fun hmem => hspace (hproper.apart (hids space _ hmem) hkey)
  have hsourceAfter :
      ((forest.removeRoot source).setTabs targetTabs (own ++ items) next source).leaves =
        (forest source).floatings.flatMap fun entry => entry.tree.leaves := by
    rw [hother source hne, removeRoot, update_self, SpaceTrees.leaves_eq_append]
    rfl
  have htargetAfter :
      ((forest.removeRoot source).setTabs targetTabs (own ++ items) next target).leaves =
        front ++ [(targetTabs, own ++ items)] ++ back := by
    rw [setTabs, rewrite, removeRoot, update_of_ne hne.symm]
    exact hnew
  have hsource : (forest source).leaves = (tabs, items) ::
      (forest source).floatings.flatMap fun entry => entry.tree.leaves := by
    rw [(forest source).leaves_eq_append, hroot]
    simp
  have hmerged : ((forest.removeRoot source).setTabs targetTabs (own ++ items) next
      target).Carries items :=
    ⟨(targetTabs, own ++ items), by simp [htargetAfter], (suffix_append own items).isInfix⟩
  constructor
  · simp only [items_eq, hsourceAfter, htargetAfter, hsource, hleaves,
      flatMap_append, flatMap_cons, flatMap_nil, append_nil]
    simp only [append_assoc]
    apply List.Perm.append_left
    apply List.Perm.append_left
    rw [← append_assoc, ← append_assoc]
    exact perm_append_comm.append_right _
  · intro entry hentry _
    rw [hsource] at hentry
    rcases mem_cons.mp hentry with rfl | hfloating
    · exact .inr hmerged
    · rw [hsourceAfter]
      exact .inl hfloating
  · intro entry hentry _
    rw [hleaves] at hentry
    simp only [mem_append, mem_singleton] at hentry
    rcases hentry with (hfront | rfl) | hback
    · exact ⟨entry, by simp [htargetAfter, hfront], infix_rfl⟩
    · exact ⟨(targetTabs, own ++ items), by simp [htargetAfter], (prefix_append own items).isInfix⟩
    · exact ⟨entry, by simp [htargetAfter, hback], infix_rfl⟩
  · intro space hspace hothers
    rw [hother space hothers, removeRoot, update_of_ne hspace]

end DockForest

end OpenGpui.Docking
