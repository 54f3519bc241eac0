/-
Programs that return a value or an error: when a sequence of checks succeeds, and
what a fold of fallible steps keeps.
-/
import Mathlib.Tactic.Common

namespace OpenGpui.Checked

open List

universe u v w

variable {ε : Type u} {α : Type v} {β : Type v} {value : β} {result : Except ε α}

theorem bind_eq_ok {next : α → Except ε β} :
    (result >>= next) = .ok value ↔ ∃ middle, result = .ok middle ∧ next middle = .ok value := by
  cases result with
  | error error | ok middle => simp [bind, Except.bind]

theorem pure_eq_ok {value other : α} : (pure value : Except ε α) = .ok other ↔ value = other := by
  simp [pure, Except.pure]

theorem map_eq_ok {f : α → β} :
    f <$> result = .ok value ↔ ∃ middle, result = .ok middle ∧ f middle = value := by
  cases result with
  | error error | ok middle => simp [Functor.map, Except.map]

/-- A check followed by a program: both succeed. -/
theorem check_bind_eq_ok {check : Except ε PUnit} {next : Except ε β} :
    (check >>= fun _ => next) = .ok value ↔ check = .ok ⟨⟩ ∧ next = .ok value := by
  rw [bind_eq_ok]
  constructor
  · rintro ⟨⟨⟩, hcheck, hnext⟩
    exact ⟨hcheck, hnext⟩
  · rintro ⟨hcheck, hnext⟩
    exact ⟨⟨⟩, hcheck, hnext⟩

/-- A guard that fails on a condition succeeds when the condition does not hold. -/
theorem guard_eq_ok {condition : Prop} [Decidable condition] {error : ε} {next : Except ε α}
    {value : α} :
    (if condition then .error error else next) = .ok value ↔ ¬ condition ∧ next = .ok value := by
  by_cases h : condition <;> simp [h]

theorem forM_eq_ok {check : α → Except ε PUnit} {items : List α} :
    items.forM check = .ok ⟨⟩ ↔ ∀ item ∈ items, check item = .ok ⟨⟩ := by
  induction items with
  | nil => simp [List.forM, pure, Except.pure]
  | cons item items ih =>
    have hsplit : (item :: items).forM check = (check item >>= fun _ => items.forM check) := rfl
    rw [hsplit, check_bind_eq_ok, ih]
    simp

/-- Items that a program returns unchanged are returned unchanged together. -/
theorem mapM_eq_ok_self {step : α → Except ε α} {items : List α}
    (h : ∀ item ∈ items, step item = .ok item) : items.mapM step = .ok items := by
  induction items with
  | nil => rfl
  | cons item rest ih =>
    rw [mapM_cons, bind_eq_ok]
    refine ⟨item, h item mem_cons_self, ?_⟩
    rw [bind_eq_ok]
    exact ⟨rest, ih fun other hmem => h other (mem_cons_of_mem _ hmem), rfl⟩

variable {γ : Type w} {items : List γ} {step : γ → Except ε α} {results : List α}

/-- The results are those of the items, in their order. -/
theorem map_of_mapM_eq_ok (h : items.mapM step = .ok results) :
    items.map step = results.map .ok := by
  induction items generalizing results with
  | nil =>
    rw [mapM_nil, pure_eq_ok] at h
    rw [← h, map_nil, map_nil]
  | cons first rest ih =>
    simp only [mapM_cons, bind_eq_ok, pure_eq_ok] at h
    obtain ⟨value, hvalue, others, hothers, rfl⟩ := h
    rw [map_cons, map_cons, hvalue, ih hothers]

/-- Every result comes from an item. -/
theorem mem_of_mapM_eq_ok (h : items.mapM step = .ok results) {result : α}
    (hmem : result ∈ results) : ∃ item ∈ items, step item = .ok result := by
  rw [← mem_map, map_of_mapM_eq_ok h]
  exact mem_map_of_mem hmem

/-- Every item has a result. -/
theorem mem_results_of_mapM_eq_ok (h : items.mapM step = .ok results) {item : γ}
    (hmem : item ∈ items) : ∃ result ∈ results, step item = .ok result := by
  have hstep : step item ∈ items.map step := mem_map_of_mem hmem
  rw [map_of_mapM_eq_ok h, mem_map] at hstep
  simpa only [eq_comm] using hstep

/-- What every step of a fold keeps holds of its result. -/
theorem foldlM_invariant {step : α → γ → Except ε α} {invariant : α → Prop}
    (hstep : ∀ state item next, step state item = .ok next → invariant state → invariant next)
    {state last : α} (hfold : items.foldlM step state = .ok last)
    (hstart : invariant state) : invariant last := by
  induction items generalizing state with
  | nil =>
    obtain rfl : state = last := by simpa [pure_eq_ok] using hfold
    exact hstart
  | cons item items ih =>
    rw [foldlM_cons, bind_eq_ok] at hfold
    obtain ⟨next, hfirst, hrest⟩ := hfold
    exact ih hrest (hstep state item next hfirst hstart)

end OpenGpui.Checked
