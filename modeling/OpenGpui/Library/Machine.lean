/-
Deterministic machines with outputs and their finite runs.  A step may be
undefined, which stands for a program that stops; the rules lift what one step
preserves to what a whole run preserves.
-/
import Mathlib.Tactic.Common

namespace OpenGpui

universe u v w x

/-- A step function with a command in and an output back. -/
structure Machine (State : Type u) (Command : Type v) (Output : Type w) where
  step : State → Command → Option (Output × State)

namespace Machine

variable {State : Type u} {Command : Type v} {Output : Type w}
variable (machine : Machine State Command Output)

/-- The state a list of commands leads to, when no step is undefined. -/
def run : State → List Command → Option State
  | state, [] => some state
  | state, command :: commands =>
    match machine.step state command with
    | none => none
    | some (_, next) => run next commands

/-- Every step the run takes meets the condition in the state it starts from. -/
def Along (condition : State → Command → Prop) : State → List Command → Prop
  | _, [] => True
  | state, command :: commands =>
    condition state command ∧ ∀ output next, machine.step state command = some (output, next) →
        Along condition next commands

/-- `Along` for a decidable condition, computed by running the commands. -/
def holdsAlong (condition : State → Command → Bool) : State → List Command → Bool
  | _, [] => true
  | state, command :: commands =>
    condition state command && match machine.step state command with
      | none => true
      | some (_, next) => holdsAlong condition next commands

variable {machine} {commands : List Command}

theorem holdsAlong_iff {condition : State → Command → Bool} {state : State} :
    machine.holdsAlong condition state commands = true ↔
      machine.Along (fun state command => condition state command = true) state commands := by
  induction commands generalizing state with
  | nil => simp [holdsAlong, Along]
  | cons command commands ih =>
    rw [holdsAlong, Along, Bool.and_eq_true]
    cases hstep : machine.step state command with
    | none => simp
    | some result =>
      obtain ⟨output, next⟩ := result
      simp only [ih, Option.some.injEq, Prod.mk.injEq, and_imp]
      constructor
      · rintro ⟨hcondition, hrest⟩
        exact ⟨hcondition, fun _ _ _ hnext => hnext ▸ hrest⟩
      · rintro ⟨hcondition, hrest⟩
        exact ⟨hcondition, hrest output next rfl rfl⟩

variable (state : State)

@[simp] theorem run_nil : machine.run state [] = some state := rfl

variable {command : Command}

theorem run_cons_of_step {state next : State} {output : Output}
    (hstep : machine.step state command = some (output, next)) (commands : List Command) :
    machine.run state (command :: commands) = machine.run next commands := by
  rw [run, hstep]

theorem run_cons_eq_some {state last : State} :
    machine.run state (command :: commands) = some last ↔
      ∃ output next, machine.step state command = some (output, next) ∧
        machine.run next commands = some last := by
  constructor
  · intro hrun
    cases hstep : machine.step state command with
    | none => simp [run, hstep] at hrun
    | some result =>
      obtain ⟨output, next⟩ := result
      exact ⟨output, next, rfl, by rwa [run_cons_of_step hstep] at hrun⟩
  · rintro ⟨output, next, hstep, hrun⟩
    rw [run_cons_of_step hstep, hrun]

variable {first second : List Command}

theorem run_append_eq_some {state last : State} : machine.run state (first ++ second) = some last ↔
      ∃ middle, machine.run state first = some middle ∧ machine.run middle second = some last := by
  induction first generalizing state with
  | nil => simp
  | cons command commands ih =>
    simp only [List.cons_append, run_cons_eq_some, ih]
    constructor
    · rintro ⟨output, next, hstep, middle, hfirst, hsecond⟩
      exact ⟨middle, ⟨output, next, hstep, hfirst⟩, hsecond⟩
    · rintro ⟨middle, ⟨output, next, hstep, hfirst⟩, hsecond⟩
      exact ⟨output, next, hstep, middle, hfirst, hsecond⟩

theorem Along.mono {first second : State → Command → Prop}
    (himp : ∀ state command, first state command → second state command)
    {state : State} (halong : machine.Along first state commands) :
    machine.Along second state commands := by
  induction commands generalizing state with
  | nil => trivial
  | cons command commands ih =>
    refine ⟨himp _ _ halong.1, ?_⟩
    intro output next hstep
    exact ih (halong.2 output next hstep)

/-- A condition on commands alone need only hold of the commands of the run. -/
theorem along_of_forall_mem {condition : Command → Prop} {state : State}
    (h : ∀ command ∈ commands, condition command) :
    machine.Along (fun _ command => condition command) state commands := by
  induction commands generalizing state with
  | nil => trivial
  | cons command commands ih =>
    refine ⟨h command List.mem_cons_self, ?_⟩
    intro output next _
    exact ih fun later hlater => h later (List.mem_cons_of_mem _ hlater)

theorem Along.and {first second : State → Command → Prop} {state : State}
    (hfirst : machine.Along first state commands) (hsecond : machine.Along second state commands) :
    machine.Along (fun state command => first state command ∧ second state command) state
      commands := by
  induction commands generalizing state with
  | nil => trivial
  | cons command commands ih =>
    refine ⟨⟨hfirst.1, hsecond.1⟩, ?_⟩
    intro output next hstep
    exact ih (hfirst.2 output next hstep) (hsecond.2 output next hstep)

variable {condition : State → Command → Prop}

theorem along_append {state : State} (halong : machine.Along condition state (first ++ second))
    {middle : State} (hrun : machine.run state first = some middle) :
    machine.Along condition middle second := by
  induction first generalizing state with
  | nil =>
    obtain rfl : state = middle := by simpa using hrun
    exact halong
  | cons command commands ih =>
    obtain ⟨output, next, hstep, hrest⟩ := run_cons_eq_some.mp hrun
    exact ih (halong.2 output next hstep) hrest

theorem along_left {state : State} (halong : machine.Along condition state (first ++ second)) :
    machine.Along condition state first := by
  induction first generalizing state with
  | nil => trivial
  | cons command commands ih =>
    refine ⟨halong.1, ?_⟩
    intro output next hstep
    exact ih (halong.2 output next hstep)

variable {invariant : State → Prop}

/-- What every permitted step preserves holds at the end of every permitted run. -/
theorem run_induction
    (hstep : ∀ state command output next, invariant state → condition state command →
      machine.step state command = some (output, next) → invariant next)
    {state last : State} (hstart : invariant state)
    (halong : machine.Along condition state commands)
    (hrun : machine.run state commands = some last) : invariant last := by
  induction commands generalizing state with
  | nil =>
    obtain rfl : state = last := by simpa using hrun
    exact hstart
  | cons command commands ih =>
    obtain ⟨output, next, hfirst, hrest⟩ := run_cons_eq_some.mp hrun
    exact ih (hstep state command output next hstart halong.1 hfirst)
      (halong.2 output next hfirst) hrest

/-- The condition that permits every step. -/
theorem along_true (commands : List Command) : machine.Along (fun _ _ => True) state commands := by
  induction commands generalizing state with
  | nil => trivial
  | cons command commands ih => exact ⟨trivial, fun _ next _ => ih next⟩

theorem invariant_of_run (hstep : ∀ state command output next, invariant state →
      machine.step state command = some (output, next) → invariant next)
    {state last : State} (hstart : invariant state)
    (hrun : machine.run state commands = some last) : invariant last :=
  run_induction (fun state command output next hinv _ => hstep state command output next hinv)
    hstart (along_true state commands) hrun

/-! Runs with their outputs, and the runs of an abstract machine that follow them. -/

/-- The outputs of a list of commands and the state it leads to, when no step is undefined. -/
def trace (machine : Machine State Command Output) :
    State → List Command → Option (List Output × State)
  | state, [] => some ([], state)
  | state, command :: commands =>
    match machine.step state command with
    | none => none
    | some (output, next) =>
      (trace machine next commands).map fun rest => (output :: rest.1, rest.2)

/-- Steps of an abstract machine for the commands, with the outputs. -/
inductive Follows {Place : Type x} (step : Place → Command → Output → Place → Prop) :
    Place → List Command → List Output → Place → Prop
  | nil (place : Place) : Follows step place [] [] place
  | cons {place middle last : Place} {command : Command} {output : Output}
      {commands : List Command} {outputs : List Output}
      (first : step place command output middle)
      (rest : Follows step middle commands outputs last) :
      Follows step place (command :: commands) (output :: outputs) last

/-- When every permitted step is defined and followed by an abstract one, so is every permitted
run. -/
theorem trace_follows {Place : Type x} {step : Place → Command → Output → Place → Prop}
    {represents : State → Place → Prop} {condition : State → Command → Prop}
    (hstep : ∀ state place command, represents state place → condition state command →
      ∃ output next place', machine.step state command = some (output, next) ∧
        step place command output place' ∧ represents next place')
    {state : State} {place : Place} {commands : List Command} (hstart : represents state place)
    (halong : machine.Along condition state commands) :
    ∃ outputs last place', machine.trace state commands = some (outputs, last) ∧
      Follows step place commands outputs place' ∧ represents last place' := by
  induction commands generalizing state place with
  | nil => exact ⟨[], state, place, rfl, .nil place, hstart⟩
  | cons command commands ih =>
    obtain ⟨output, next, middle, hfirst, hfollow, hnext⟩ :=
      hstep state place command hstart halong.1
    obtain ⟨outputs, last, place', hrest, hfollows, hlast⟩ := ih hnext (halong.2 output next hfirst)
    refine ⟨output :: outputs, last, place', ?_, .cons hfollow hfollows, hlast⟩
    simp only [trace, hfirst, hrest, Option.map_some]

end Machine

end OpenGpui
