/-
Depth-first search for a cycle in a relation given by successor lists.  A vertex
is `visiting` while its successors are being searched and `visited` once all of
them are done; meeting a visiting vertex again is the only failure.  With enough
steps the search fails exactly on the relations that have a cycle.
-/
import Mathlib.Data.List.Perm.Subperm

namespace OpenGpui.CycleCheck

open List

universe u

variable {V : Type u} (succ : V → List V)

/-- One step along a successor list. -/
def Edge (source target : V) : Prop := target ∈ succ source

def Acyclic : Prop := ∀ vertex, ¬ Relation.TransGen (Edge succ) vertex vertex

/-- Everything below the vertex is finished in finitely many steps. -/
def Grounded (vertex : V) : Prop := Acc (fun target source => Edge succ source target) vertex

section Search

variable [DecidableEq V]

/-- The search below one vertex, at most `fuel` levels deep; it returns the
visited vertices or the vertex that closes a cycle. -/
def search : Nat → List V → List V → V → Except V (List V)
  | 0, _, _, vertex => .error vertex
  | fuel + 1, visiting, visited, vertex =>
    if vertex ∈ visited then .ok visited
    else if vertex ∈ visiting then .error vertex
    else do
      let visited ← (succ vertex).foldlM (search fuel (vertex :: visiting)) visited
      return vertex :: visited

/-- Searches below each root in turn. -/
def searchAll (fuel : Nat) (roots : List V) : Except V (List V) :=
  roots.foldlM (search succ fuel []) []

end Search

variable {succ}

theorem Grounded.not_cycle {vertex : V} (hground : Grounded succ vertex) :
    ¬ Relation.TransGen (Edge succ) vertex vertex := by
  induction hground with
  | intro vertex _ ih =>
    intro hcycle
    obtain ⟨next, hstep, hback⟩ := Relation.TransGen.head'_iff.mp hcycle
    exact ih next hstep (Relation.TransGen.tail' hback hstep)

/-- What a fold of searches returns contains what every search in it adds. -/
theorem foldlM_visited {step : List V → V → Except V (List V)} (Good : List V → Prop)
    (hstep : ∀ visited vertex after, step visited vertex = .ok after → Good visited →
      Good after ∧ vertex ∈ after ∧ visited ⊆ after) :
    ∀ (vertices visited after : List V), vertices.foldlM step visited = .ok after →
      Good visited → Good after ∧ (∀ vertex ∈ vertices, vertex ∈ after) ∧ visited ⊆ after := by
  intro vertices
  induction vertices with
  | nil =>
    intro visited after hfold hgood
    cases hfold
    exact ⟨hgood, by simp, List.Subset.refl _⟩
  | cons vertex rest ih =>
    intro visited after hfold hgood
    rw [foldlM_cons] at hfold
    cases hfirst : step visited vertex with
    | error err => simp [hfirst, bind, Except.bind] at hfold
    | ok middle =>
      rw [hfirst] at hfold
      obtain ⟨hmiddle, hmem, hsub⟩ := hstep _ _ _ hfirst hgood
      obtain ⟨hafter, hrest, hsub'⟩ := ih middle after hfold hmiddle
      refine ⟨hafter, ?_, List.Subset.trans hsub hsub'⟩
      intro other hother
      rcases mem_cons.mp hother with rfl | htail
      · exact hsub' hmem
      · exact hrest other htail

/-- A fold succeeds when each of its searches does. -/
theorem foldlM_ok (step : List V → V → Except V (List V)) : ∀ (vertices visited : List V),
      (∀ seen, ∀ vertex ∈ vertices, ∃ after, step seen vertex = .ok after) →
      ∃ after, vertices.foldlM step visited = .ok after := by
  intro vertices
  induction vertices with
  | nil => exact fun visited _ => ⟨visited, rfl⟩
  | cons vertex rest ih =>
    intro visited hstep
    obtain ⟨middle, hmiddle⟩ := hstep visited vertex mem_cons_self
    obtain ⟨after, hafter⟩ := ih middle fun seen other hother =>
      hstep seen other (mem_cons_of_mem _ hother)
    refine ⟨after, ?_⟩
    rw [foldlM_cons, hmiddle]
    exact hafter

variable [DecidableEq V]

/-- What is visited stays grounded: a vertex is added after its successors. -/
theorem search_grounded : ∀ (fuel : Nat) (visiting visited : List V) (vertex : V) (after : List V),
      search succ fuel visiting visited vertex = .ok after →
      (∀ seen ∈ visited, Grounded succ seen) →
      (∀ seen ∈ after, Grounded succ seen) ∧ vertex ∈ after ∧ visited ⊆ after := by
  intro fuel
  induction fuel with
  | zero => intro visiting visited vertex after hsearch; cases hsearch
  | succ fuel ih =>
    intro visiting visited vertex after hsearch hgrounded
    rw [search] at hsearch
    by_cases hvisited : vertex ∈ visited
    · rw [if_pos hvisited] at hsearch
      cases hsearch
      exact ⟨hgrounded, hvisited, List.Subset.refl _⟩
    · rw [if_neg hvisited] at hsearch
      by_cases hvisiting : vertex ∈ visiting
      · rw [if_pos hvisiting] at hsearch
        cases hsearch
      · rw [if_neg hvisiting] at hsearch
        cases hfold : (succ vertex).foldlM (search succ fuel (vertex :: visiting)) visited with
        | error err => simp [hfold, bind, Except.bind] at hsearch
        | ok middle =>
          rw [hfold] at hsearch
          cases hsearch
          obtain ⟨hmiddle, hchildren, hsub⟩ :=
            foldlM_visited (fun seen => ∀ other ∈ seen, Grounded succ other)
              (fun seen child next hnext => ih _ seen child next hnext)
              (succ vertex) visited middle hfold hgrounded
          refine ⟨?_, mem_cons_self, subset_cons_of_subset _ hsub⟩
          intro seen hseen
          rcases mem_cons.mp hseen with rfl | hold
          · exact Acc.intro _ fun child hchild => hmiddle child (hchildren child hchild)
          · exact hmiddle seen hold

/-- An accepted relation has no cycle. -/
theorem acyclic_of_searchAll {fuel : Nat} {roots after : List V}
    (hroots : ∀ vertex, succ vertex ≠ [] → vertex ∈ roots)
    (hsearch : searchAll succ fuel roots = .ok after) : Acyclic succ := by
  obtain ⟨hgrounded, hmem, _⟩ :=
    foldlM_visited (fun seen => ∀ other ∈ seen, Grounded succ other)
      (fun seen vertex next hnext => search_grounded fuel [] seen vertex next hnext)
      roots [] after hsearch (by simp)
  intro vertex
  apply Grounded.not_cycle
  by_cases hempty : succ vertex = []
  · exact Acc.intro _ fun child hchild => by simp [Edge, hempty] at hchild
  · exact hgrounded vertex (hmem vertex (hroots vertex hempty))

/-- Without a cycle the vertices being visited are distinct, so the depth of the
search is bounded by the number of vertices and no search fails. -/
theorem search_ok_of_acyclic (hacyclic : Acyclic succ) {support : List V}
    (hsupport : ∀ vertex, ∀ next ∈ succ vertex, next ∈ support) :
    ∀ (fuel : Nat) (visiting visited : List V) (vertex : V),
      vertex ∈ support → visiting ⊆ support → visiting.Nodup →
      (∀ other ∈ visiting, Relation.TransGen (Edge succ) other vertex) →
      support.length ≤ fuel + visiting.length →
      ∃ after, search succ fuel visiting visited vertex = .ok after := by
  intro fuel
  induction fuel with
  | zero =>
    intro visiting visited vertex hvertex hsub hnodup hpath hfuel
    have hfresh : vertex ∉ visiting := fun h => hacyclic vertex (hpath vertex h)
    have hle : (vertex :: visiting).length ≤ support.length :=
      (subperm_of_subset (nodup_cons.mpr ⟨hfresh, hnodup⟩)
        (cons_subset.mpr ⟨hvertex, hsub⟩)).length_le
    rw [length_cons] at hle
    omega
  | succ fuel ih =>
    intro visiting visited vertex hvertex hsub hnodup hpath hfuel
    have hfresh : vertex ∉ visiting := fun h => hacyclic vertex (hpath vertex h)
    rw [search]
    by_cases hvisited : vertex ∈ visited
    · exact ⟨visited, by rw [if_pos hvisited]⟩
    · rw [if_neg hvisited, if_neg hfresh]
      obtain ⟨middle, hmiddle⟩ :=
        foldlM_ok (search succ fuel (vertex :: visiting)) (succ vertex) visited
          fun seen child hchild => by
            apply ih _ _ _ (hsupport vertex child hchild)
              (cons_subset.mpr ⟨hvertex, hsub⟩) (nodup_cons.mpr ⟨hfresh, hnodup⟩)
            · intro other hother
              rcases mem_cons.mp hother with rfl | hold
              · exact Relation.TransGen.single hchild
              · exact (hpath other hold).tail hchild
            · rw [length_cons]
              omega
      exact ⟨vertex :: middle, by rw [hmiddle]; rfl⟩

/-- With a step for every vertex, acceptance means that there is no cycle. -/
theorem searchAll_ok_iff_acyclic {fuel : Nat} {roots support : List V}
    (hroots : ∀ vertex, succ vertex ≠ [] → vertex ∈ roots) (hsub : roots ⊆ support)
    (hsupport : ∀ vertex, ∀ next ∈ succ vertex, next ∈ support) (hfuel : support.length ≤ fuel) :
    (∃ after, searchAll succ fuel roots = .ok after) ↔ Acyclic succ := by
  constructor
  · rintro ⟨after, hsearch⟩
    exact acyclic_of_searchAll hroots hsearch
  · intro hacyclic
    apply foldlM_ok
    intro seen vertex hvertex
    apply search_ok_of_acyclic hacyclic hsupport fuel [] seen vertex (hsub hvertex)
    · simp
    · exact nodup_nil
    · simp
    · simpa using hfuel

end OpenGpui.CycleCheck
