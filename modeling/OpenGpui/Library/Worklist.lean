/-
Worklist traversal of a relation given by successor lists.  The traversal pops
one pending vertex at a time and pushes the successors of a vertex the first
time it is popped; with enough steps its result is the set of vertices reachable
from the pending ones.
-/
import Mathlib.Algebra.BigOperators.Group.List.Lemmas
import Mathlib.Algebra.GroupWithZero.Nat

namespace OpenGpui.Worklist

open List

universe u

variable {V : Type u} (succ : V → List V)

/-- Reachability along successor lists. -/
def Reaches : V → V → Prop := Relation.ReflTransGen fun source target => target ∈ succ source

variable {succ}

theorem Reaches.refl (vertex : V) : Reaches succ vertex vertex := Relation.ReflTransGen.refl

theorem Reaches.of_step {source target last : V} (hstep : target ∈ succ source)
    (hreach : Reaches succ target last) : Reaches succ source last :=
  Relation.ReflTransGen.head hstep hreach

theorem Reaches.mem_of_closed {source target : V} (hreach : Reaches succ source target)
    {vertices : List V} (hclosed : ∀ vertex ∈ vertices, ∀ next ∈ succ vertex, next ∈ vertices)
    (hsource : source ∈ vertices) : target ∈ vertices := by
  induction hreach with
  | refl => exact hsource
  | tail _ hstep ih => exact hclosed _ ih _ hstep

variable [DecidableEq V]

variable (succ) in
/-- The head of `pending` is the top of the stack; `seen` grows until nothing is
pending or the bound on the number of steps is spent. -/
def visit : Nat → List V → List V → List V
  | 0, _, seen => seen
  | _ + 1, [], seen => seen
  | fuel + 1, vertex :: pending, seen =>
    if vertex ∈ seen then visit fuel pending seen
    else visit fuel ((succ vertex).reverse ++ pending) (vertex :: seen)

variable (succ) in
/-- What is still to be pushed: the successors of the vertices not yet seen. -/
def debt (support seen : List V) : Nat :=
  ((support.filter (· ∉ seen)).map fun vertex => (succ vertex).length).sum

variable {support : List V}

theorem debt_cons {seen : List V} {vertex : V} (hnodup : support.Nodup)
    (hsupport : vertex ∈ support) (hseen : vertex ∉ seen) :
    debt succ support (vertex :: seen) + (succ vertex).length = debt succ support seen := by
  induction support with
  | nil => simp at hsupport
  | cons head tail ih =>
    rw [nodup_cons] at hnodup
    rcases mem_cons.mp hsupport with heq | htail
    · subst heq
      have hkeep : tail.filter (· ∉ vertex :: seen) = tail.filter (· ∉ seen) := by
        apply filter_congr
        intro other hother
        have hne : other ≠ vertex := fun heq => hnodup.1 (heq ▸ hother)
        simp [hne]
      simp only [debt] at hkeep ⊢
      rw [filter_cons_of_neg (by simp), filter_cons_of_pos (by simpa using hseen),
        hkeep, map_cons, sum_cons, Nat.add_comm]
    · have hne : head ≠ vertex := fun heq => hnodup.1 (heq ▸ htail)
      have hrest := ih hnodup.2 htail
      simp only [debt] at hrest ⊢
      by_cases hhead : head ∈ seen
      · rw [filter_cons_of_neg (by simp [hhead]),
          filter_cons_of_neg (by simp [hhead])]
        exact hrest
      · rw [filter_cons_of_pos (by simp [hhead, hne]),
          filter_cons_of_pos (by simp [hhead])]
        simp only [map_cons, sum_cons]
        omega

theorem visit_sound (fuel : Nat) (pending seen : List V) : ∀ vertex ∈ visit succ fuel pending seen,
      vertex ∈ seen ∨ ∃ start ∈ pending, Reaches succ start vertex := by
  induction fuel generalizing pending seen with
  | zero =>
    intro vertex hmem
    exact .inl hmem
  | succ fuel ih =>
    cases pending with
    | nil =>
      intro vertex hmem
      exact .inl hmem
    | cons head tail =>
      intro vertex hmem
      rw [visit] at hmem
      split at hmem
      · rcases ih tail seen vertex hmem with hseen | ⟨start, hstart, hreach⟩
        · exact .inl hseen
        · exact .inr ⟨start, mem_cons_of_mem head hstart, hreach⟩
      · rcases ih _ _ vertex hmem with hseen | ⟨start, hstart, hreach⟩
        · rcases mem_cons.mp hseen with rfl | hseen
          · exact .inr ⟨vertex, mem_cons_self, Reaches.refl vertex⟩
          · exact .inl hseen
        · rcases mem_append.mp hstart with hsucc | htail
          · exact .inr ⟨head, mem_cons_self, Reaches.of_step (mem_reverse.mp hsucc) hreach⟩
          · exact .inr ⟨start, mem_cons_of_mem head htail, hreach⟩

/-- With fuel for every push, the result contains what was pending or seen and is
closed under successors. -/
theorem visit_closed (hnodup : support.Nodup)
    (hsupport : ∀ vertex, vertex ∉ support → succ vertex = []) {fuel : Nat} {pending seen : List V}
    (hfuel : pending.length + debt succ support seen ≤ fuel)
    (hseen : ∀ vertex ∈ seen, ∀ next ∈ succ vertex, next ∈ seen ∨ next ∈ pending) :
    (∀ vertex, vertex ∈ seen ∨ vertex ∈ pending → vertex ∈ visit succ fuel pending seen) ∧
      ∀ vertex ∈ visit succ fuel pending seen, ∀ next ∈ succ vertex,
        next ∈ visit succ fuel pending seen := by
  induction fuel generalizing pending seen with
  | zero =>
    have hnil : pending = [] := length_eq_zero_iff.mp (by omega)
    subst hnil
    refine ⟨fun vertex hmem => by simpa [visit] using hmem, ?_⟩
    intro vertex hmem next hnext
    simpa [visit] using hseen vertex hmem next hnext
  | succ fuel ih =>
    cases pending with
    | nil =>
      refine ⟨fun vertex hmem => by simpa [visit] using hmem, ?_⟩
      intro vertex hmem next hnext
      simpa [visit] using hseen vertex hmem next hnext
    | cons head tail =>
      rw [visit]
      simp only [length_cons] at hfuel
      split
      · next hhead =>
        have hseen' : ∀ vertex ∈ seen, ∀ next ∈ succ vertex, next ∈ seen ∨ next ∈ tail := by
          intro vertex hvertex next hnext
          rcases hseen vertex hvertex next hnext with hold | hpending
          · exact .inl hold
          · rcases mem_cons.mp hpending with rfl | htail
            · exact .inl hhead
            · exact .inr htail
        have hstep := ih (by omega) hseen'
        refine ⟨fun vertex hmem => hstep.1 vertex ?_, hstep.2⟩
        rcases hmem with hold | hpending
        · exact .inl hold
        · rcases mem_cons.mp hpending with rfl | htail
          · exact .inl hhead
          · exact .inr htail
      · next hhead =>
        have hdebt : (succ head).length + debt succ support (head :: seen) ≤
            debt succ support seen := by
          by_cases hin : head ∈ support
          · rw [← debt_cons hnodup hin hhead]
            omega
          · have hkeep : support.filter (· ∉ head :: seen) = support.filter (· ∉ seen) := by
              apply filter_congr
              intro other hother
              have hne : other ≠ head := fun heq => hin (heq ▸ hother)
              simp [hne]
            simp only [debt] at hkeep ⊢
            rw [hkeep]
            simp [hsupport head hin]
        have hseen' : ∀ vertex ∈ head :: seen, ∀ next ∈ succ vertex,
            next ∈ head :: seen ∨ next ∈ (succ head).reverse ++ tail := by
          intro vertex hvertex next hnext
          rcases mem_cons.mp hvertex with rfl | hold
          · exact .inr (by simp [hnext])
          · rcases hseen vertex hold next hnext with hold | hpending
            · exact .inl (mem_cons_of_mem head hold)
            · rcases mem_cons.mp hpending with rfl | htail
              · exact .inl mem_cons_self
              · exact .inr (mem_append_right _ htail)
        have hlength : ((succ head).reverse ++ tail).length =
            (succ head).length + tail.length := by simp
        have hstep := ih (by omega) hseen'
        refine ⟨fun vertex hmem => hstep.1 vertex ?_, hstep.2⟩
        rcases hmem with hold | hpending
        · exact .inl (mem_cons_of_mem head hold)
        · rcases mem_cons.mp hpending with rfl | htail
          · exact .inl mem_cons_self
          · exact .inr (mem_append_right _ htail)

/-- From an empty start the traversal computes exactly the reachable vertices. -/
theorem mem_visit_iff (hnodup : support.Nodup)
    (hsupport : ∀ vertex, vertex ∉ support → succ vertex = []) {fuel : Nat} {pending : List V}
    (hfuel : pending.length + debt succ support [] ≤ fuel) (target : V) :
    target ∈ visit succ fuel pending [] ↔ ∃ start ∈ pending, Reaches succ start target := by
  have hclosed := visit_closed hnodup hsupport hfuel (by simp)
  constructor
  · intro hmem
    rcases visit_sound fuel pending [] target hmem with hseen | hreach
    · simp at hseen
    · exact hreach
  · rintro ⟨start, hstart, hreach⟩
    exact hreach.mem_of_closed hclosed.2 (hclosed.1 start (.inr hstart))

section Meets

variable (goal : V → Bool)

variable (succ) in
/-- The same traversal, stopped at the first vertex that is a goal. -/
def meets : Nat → List V → List V → Bool
  | 0, _, _ => false
  | _ + 1, [], _ => false
  | fuel + 1, vertex :: pending, seen =>
    if vertex ∈ seen then meets fuel pending seen
    else if goal vertex then true
    else meets fuel ((succ vertex).reverse ++ pending) (vertex :: seen)

theorem mem_visit_of_seen (fuel : Nat) (pending seen : List V) :
    ∀ vertex ∈ seen, vertex ∈ visit succ fuel pending seen := by
  induction fuel generalizing pending seen with
  | zero => exact fun vertex hmem => hmem
  | succ fuel ih =>
    intro vertex hmem
    cases pending with
    | nil => exact hmem
    | cons head tail =>
      rw [visit]
      split
      · exact ih tail seen vertex hmem
      · exact ih _ _ vertex (mem_cons_of_mem head hmem)

variable {goal}

theorem meets_iff_visit {fuel : Nat} {pending seen : List V}
    (hseen : ∀ vertex ∈ seen, goal vertex = false) :
    meets succ goal fuel pending seen = true ↔
      ∃ vertex ∈ visit succ fuel pending seen, goal vertex = true := by
  have hnone : ¬ ∃ vertex ∈ seen, goal vertex = true := by
    rintro ⟨vertex, hmem, hgoal⟩
    rw [hseen vertex hmem] at hgoal
    cases hgoal
  induction fuel generalizing pending seen with
  | zero => simpa [meets, visit] using hnone
  | succ fuel ih =>
    cases pending with
    | nil => simpa [meets, visit] using hnone
    | cons head tail =>
      rw [meets, visit]
      by_cases hhead : head ∈ seen
      · rw [if_pos hhead, if_pos hhead]
        exact ih hseen hnone
      rw [if_neg hhead, if_neg hhead]
      by_cases hgoal : goal head = true
      · rw [if_pos hgoal]
        have hmem : head ∈ visit succ fuel ((succ head).reverse ++ tail) (head :: seen) :=
          mem_visit_of_seen _ _ _ head mem_cons_self
        exact ⟨fun _ => ⟨head, hmem, hgoal⟩, fun _ => rfl⟩
      · rw [if_neg hgoal]
        have hseen' : ∀ vertex ∈ head :: seen, goal vertex = false := by
          intro vertex hmem
          rcases mem_cons.mp hmem with rfl | hold
          · exact Bool.not_eq_true _ ▸ hgoal
          · exact hseen vertex hold
        apply ih hseen'
        rintro ⟨vertex, hmem, hmeets⟩
        rw [hseen' vertex hmem] at hmeets
        cases hmeets

theorem meets_iff {support : List V} (hnodup : support.Nodup)
    (hsupport : ∀ vertex, vertex ∉ support → succ vertex = [])
    {fuel : Nat} {pending : List V} (hfuel : pending.length + debt succ support [] ≤ fuel) :
    meets succ goal fuel pending [] = true ↔
      ∃ start ∈ pending, ∃ target, Reaches succ start target ∧ goal target = true := by
  rw [meets_iff_visit (by simp)]
  constructor
  · rintro ⟨target, hmem, hgoal⟩
    obtain ⟨start, hstart, hreach⟩ := (mem_visit_iff hnodup hsupport hfuel target).mp hmem
    exact ⟨start, hstart, target, hreach, hgoal⟩
  · rintro ⟨start, hstart, target, hreach, hgoal⟩
    exact ⟨target, (mem_visit_iff hnodup hsupport hfuel target).mpr ⟨start, hstart, hreach⟩, hgoal⟩

end Meets

variable (succ) (admits : V → Bool)

/-- One admitted vertex, recorded and pushed the first time it is met. -/
def gatherOne (found : List V × List V) (vertex : V) : List V × List V :=
  if admits vertex = true ∧ vertex ∉ found.1 then (found.1 ++ [vertex], vertex :: found.2)
  else found

/-- A traversal that records the vertices when it pushes them: the recorded vertices come
first, the stack second. -/
def gather : Nat → List V × List V → List V
  | 0, found => found.1
  | _ + 1, (records, []) => records
  | fuel + 1, (records, vertex :: pending) =>
    gather fuel ((succ vertex).foldl (gatherOne admits) (records, pending))

/-- One admitted step. -/
def AdmittedStep (source target : V) : Prop := target ∈ succ source ∧ admits target = true

variable {succ admits}

/-- What a fold of pushes adds: distinct new vertices, recorded and pending. -/
theorem foldl_gatherOne (vertices : List V) (found : List V × List V) : ∃ added, added.Nodup ∧
      vertices.foldl (gatherOne admits) found = (found.1 ++ added, added.reverse ++ found.2) ∧
      (∀ vertex ∈ added, vertex ∈ vertices ∧ admits vertex = true ∧ vertex ∉ found.1) ∧
      ∀ vertex ∈ vertices, admits vertex = true → vertex ∈ found.1 ++ added := by
  induction vertices generalizing found with
  | nil => exact ⟨[], by simp⟩
  | cons vertex rest ih =>
    rw [foldl_cons, gatherOne]
    by_cases hnew : admits vertex = true ∧ vertex ∉ found.1
    · rw [if_pos hnew]
      obtain ⟨added, hnodup, hfold, hadded, hall⟩ := ih (found.1 ++ [vertex], vertex :: found.2)
      have hfresh : vertex ∉ added := fun hmem => (hadded vertex hmem).2.2 (by simp)
      refine ⟨vertex :: added, nodup_cons.mpr ⟨hfresh, hnodup⟩, ?_, ?_, ?_⟩
      · rw [hfold]
        simp
      · intro other hmem
        rcases mem_cons.mp hmem with rfl | hrest
        · exact ⟨mem_cons_self, hnew⟩
        · obtain ⟨hin, hadmits, hnotin⟩ := hadded other hrest
          exact ⟨mem_cons_of_mem _ hin, hadmits, fun h => hnotin (by simp [h])⟩
      · intro other hmem hadmits
        rcases mem_cons.mp hmem with rfl | hrest
        · simp
        · simpa using hall other hrest hadmits
    · rw [if_neg hnew]
      obtain ⟨added, hnodup, hfold, hadded, hall⟩ := ih found
      refine ⟨added, hnodup, hfold, ?_, ?_⟩
      · intro other hmem
        obtain ⟨hin, hrest⟩ := hadded other hmem
        exact ⟨mem_cons_of_mem _ hin, hrest⟩
      · intro other hmem hadmits
        rcases mem_cons.mp hmem with rfl | hrest
        · have hold : other ∈ found.1 := by
            by_contra hnot
            exact hnew ⟨hadmits, hnot⟩
          exact mem_append_left _ hold
        · exact hall other hrest hadmits

theorem gather_sound (fuel : Nat) (records pending : List V) :
    ∀ vertex ∈ gather succ admits fuel (records, pending), vertex ∈ records ∨
      ∃ start ∈ pending, Relation.TransGen (AdmittedStep succ admits) start vertex := by
  induction fuel generalizing records pending with
  | zero => exact fun vertex hmem => .inl hmem
  | succ fuel ih =>
    cases pending with
    | nil => exact fun vertex hmem => .inl hmem
    | cons head tail =>
      intro vertex hmem
      obtain ⟨added, -, hfold, hadded, -⟩ := @foldl_gatherOne V _ admits (succ head) (records, tail)
      rw [gather, hfold] at hmem
      have hstep : ∀ next ∈ added, AdmittedStep succ admits head next := fun next hnext =>
        ⟨(hadded next hnext).1, (hadded next hnext).2.1⟩
      rcases ih _ _ vertex hmem with hrecord | ⟨start, hstart, hreach⟩
      · rcases mem_append.mp hrecord with hold | hnew
        · exact .inl hold
        · exact .inr ⟨head, mem_cons_self, .single (hstep vertex hnew)⟩
      · rcases mem_append.mp hstart with hnew | hold
        · exact .inr ⟨head, mem_cons_self, .head (hstep start (mem_reverse.mp hnew)) hreach⟩
        · exact .inr ⟨start, mem_cons_of_mem _ hold, hreach⟩

/-- The number of vertices of a support that are not recorded yet. -/
def missing (support records : List V) : Nat := (support.filter (· ∉ records)).length

variable {support : List V}

theorem missing_append {records added : List V} (hnodup : added.Nodup)
    (hadded : ∀ vertex ∈ added, vertex ∈ support ∧ vertex ∉ records) :
    missing support (records ++ added) + added.length ≤ missing support records := by
  have hsub : added.length ≤ ((support.filter (· ∉ records)).filter (· ∈ added)).length := by
    apply List.Subperm.length_le
    apply subperm_of_subset hnodup
    intro vertex hmem
    simp [hadded vertex hmem, hmem]
  have hrest : (support.filter (· ∉ records)).filter (fun vertex => !decide (vertex ∈ added)) =
      support.filter (· ∉ records ++ added) := by
    rw [filter_filter]
    apply filter_congr
    intro vertex _
    simp [not_or, Bool.and_comm]
  have hsplit := length_eq_length_filter_add (l := support.filter (· ∉ records))
    (fun vertex => decide (vertex ∈ added))
  rw [hrest] at hsplit
  rw [missing, missing]
  omega

variable (hsupport : ∀ source, ∀ target ∈ succ source, target ∈ support)

include hsupport

variable {fuel : Nat} {records pending : List V}
  (hfuel : pending.length + missing support records ≤ fuel)

include hfuel

/-- With fuel for every push, what is recorded is closed under admitted steps, apart from
what was recorded and not pending at the start. -/
theorem gather_closed : (∀ vertex ∈ records, vertex ∈ gather succ admits fuel (records, pending)) ∧
      ∀ vertex, vertex ∈ pending ∨
          (vertex ∈ gather succ admits fuel (records, pending) ∧ vertex ∉ records) →
        ∀ next, AdmittedStep succ admits vertex next →
          next ∈ gather succ admits fuel (records, pending) := by
  induction fuel generalizing records pending with
  | zero =>
    have hnil : pending = [] := length_eq_zero_iff.mp (by omega)
    subst hnil
    refine ⟨fun vertex hmem => hmem, ?_⟩
    rintro vertex (hpending | ⟨hmem, hnot⟩)
    · cases hpending
    · exact absurd hmem hnot
  | succ fuel ih =>
    cases pending with
    | nil =>
      refine ⟨fun vertex hmem => hmem, ?_⟩
      rintro vertex (hpending | ⟨hmem, hnot⟩)
      · cases hpending
      · exact absurd hmem hnot
    | cons head tail =>
      obtain ⟨added, hnodup, hfold, hadded, hall⟩ :=
        @foldl_gatherOne V _ admits (succ head) (records, tail)
      rw [gather, hfold]
      have hmissing := @missing_append V _ support records added hnodup fun vertex hmem =>
        ⟨hsupport head vertex (hadded vertex hmem).1, (hadded vertex hmem).2.2⟩
      rw [length_cons] at hfuel
      obtain ⟨hkeeps, hsteps⟩ := @ih (records ++ added) (added.reverse ++ tail)
        (by rw [length_append, length_reverse]; omega)
      refine ⟨fun vertex hmem => hkeeps vertex (mem_append_left _ hmem), ?_⟩
      intro vertex hvertex next hstep
      rcases hvertex with hpending | ⟨hmem, hnot⟩
      · rcases mem_cons.mp hpending with rfl | htail
        · exact hkeeps next (hall next hstep.1 hstep.2)
        · exact hsteps vertex (.inl (mem_append_right _ htail)) next hstep
      · by_cases hnew : vertex ∈ added
        · have hpending : vertex ∈ added.reverse ++ tail :=
            mem_append_left _ (mem_reverse.mpr hnew)
          exact hsteps vertex (.inl hpending) next hstep
        · apply hsteps vertex (.inr ⟨hmem, ?_⟩) next hstep
          rw [mem_append, not_or]
          exact ⟨hnot, hnew⟩

/-- The traversal records, besides what it starts with, what admitted steps lead to from
the pending vertices. -/
theorem mem_gather_iff (hrecords : ∀ vertex ∈ records, vertex ∈ pending) (target : V) :
    target ∈ gather succ admits fuel (records, pending) ↔ target ∈ records ∨
        ∃ start ∈ pending, Relation.TransGen (AdmittedStep succ admits) start target := by
  obtain ⟨hkeeps, hsteps⟩ :=
    @gather_closed V succ _ admits support hsupport fuel records pending hfuel
  have hclosed : ∀ vertex, vertex ∈ pending ∨ vertex ∈ gather succ admits fuel (records, pending) →
      ∀ next, AdmittedStep succ admits vertex next →
        next ∈ gather succ admits fuel (records, pending) := by
    intro vertex hvertex
    apply hsteps vertex
    rcases hvertex with hpending | hmem
    · exact .inl hpending
    · by_cases hrecord : vertex ∈ records
      · exact .inl (hrecords vertex hrecord)
      · exact .inr ⟨hmem, hrecord⟩
  constructor
  · exact gather_sound fuel records pending target
  · rintro (hrecord | ⟨start, hstart, hreach⟩)
    · exact hkeeps target hrecord
    · induction hreach with
      | single hstep => exact hclosed start (.inl hstart) _ hstep
      | tail _ hstep ih => exact hclosed _ (.inr ih) _ hstep

end OpenGpui.Worklist
