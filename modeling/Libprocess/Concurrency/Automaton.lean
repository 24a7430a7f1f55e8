import Mathlib.Logic.Basic

/-!
# Automata and runs under a step condition

A concurrent program is presented as an automaton.  A label resolves every
choice that the program leaves to its environment: which thread moves, which
value an external call returns.  The step function is then executable, and a
schedule is a list of labels.

`Reaches allowed` collects the states of those runs whose every step satisfies
`allowed` in the state before it.  Unconditional reachability is the instance in
which every step is allowed.
-/

namespace Concurrency

universe u v

/-- A labelled automaton with an executable partial step function. -/
structure Automaton (State : Type u) (Label : Type v) where
  start : State → Prop
  step : State → Label → Option State

namespace Automaton

variable {State : Type u} {Label : Type v} (machine : Automaton State Label)

/-- Execute a schedule. -/
def run : State → List Label → Option State
  | state, [] => some state
  | state, label :: rest => (machine.step state label).bind fun next => run next rest

/-- States reached by runs whose every step is allowed. -/
inductive Reaches (allowed : State → Label → Prop) : State → Prop where
  | start {state : State} : machine.start state → Reaches allowed state
  | step {state next : State} {label : Label} : Reaches allowed state →
      allowed state label → machine.step state label = some next →
      Reaches allowed next

/-- States reached by arbitrary runs. -/
abbrev Reachable : State → Prop :=
  machine.Reaches fun _ _ => True

/-- `Leads source target`: some schedule takes `source` to `target`. -/
inductive Leads (source : State) : State → Prop where
  | refl : Leads source source
  | step {state next : State} {label : Label} : Leads source state →
      machine.step state label = some next → Leads source next

/-- A condition on steps, checked along a whole schedule. -/
def Along (allowed : State → Label → Prop) : State → List Label → Prop
  | _, [] => True
  | state, label :: rest =>
      allowed state label ∧
        match machine.step state label with
        | none => True
        | some next => Along allowed next rest

/-- A property of states, checked in every state of a schedule. -/
def Throughout (holds : State → Prop) : State → List Label → Prop
  | state, [] => holds state
  | state, label :: rest =>
      holds state ∧
        match machine.step state label with
        | none => True
        | some next => Throughout holds next rest

variable {machine}

/-- The invariant rule: an initial property preserved by every allowed step
holds in every state reached. -/
theorem Reaches.invariant {allowed : State → Label → Prop} {state : State}
    (reached : machine.Reaches allowed state) (holds : State → Prop)
    (initial : ∀ state, machine.start state → holds state)
    (preserved : ∀ state label next, holds state → allowed state label →
      machine.step state label = some next → holds next) : holds state := by
  induction reached with
  | start started => exact initial _ started
  | step _ permitted stepped ih => exact preserved _ _ _ ih permitted stepped

theorem Reaches.mono {allowed weaker : State → Label → Prop}
    (implied : ∀ state label, allowed state label → weaker state label)
    {state : State} (reached : machine.Reaches allowed state) :
    machine.Reaches weaker state := by
  induction reached with
  | start started => exact .start started
  | step _ permitted stepped ih => exact .step ih (implied _ _ permitted) stepped

theorem Reaches.reachable {allowed : State → Label → Prop} {state : State}
    (reached : machine.Reaches allowed state) : machine.Reachable state :=
  reached.mono fun _ _ _ => True.intro

/-- Reachability is closed under continuing the run. -/
theorem Reachable.leads {source target : State} (reached : machine.Reachable source)
    (path : machine.Leads source target) : machine.Reachable target := by
  induction path with
  | refl => exact reached
  | step _ stepped ih => exact .step ih True.intro stepped

theorem Leads.trans {source middle target : State} (first : machine.Leads source middle)
    (last : machine.Leads middle target) : machine.Leads source target := by
  induction last with
  | refl => exact first
  | step _ stepped ih => exact ih.step stepped

/-- A property that every step from a reachable state preserves is preserved by
every continuation of a reachable state. -/
theorem Leads.preserves {source target : State} (path : machine.Leads source target)
    (holds : State → Prop) (reached : machine.Reachable source) (initial : holds source)
    (preserved : ∀ state label next, machine.Reachable state → holds state →
      machine.step state label = some next → holds next) : holds target := by
  induction path with
  | refl => exact initial
  | step prior stepped ih => exact preserved _ _ _ (reached.leads prior) ih stepped

/-- A property that every allowed step preserves survives a schedule of such steps. -/
theorem Along.preserves {allowed : State → Label → Prop} {schedule : List Label}
    {source target : State} (permitted : machine.Along allowed source schedule)
    (executed : machine.run source schedule = some target) (holds : State → Prop)
    (initial : holds source)
    (preserved : ∀ state label next, holds state → allowed state label →
      machine.step state label = some next → holds next) : holds target := by
  induction schedule generalizing source with
  | nil =>
      simp only [run, Option.some.injEq] at executed
      exact executed ▸ initial
  | cons label rest ih =>
      simp only [run, Option.bind_eq_some_iff] at executed
      obtain ⟨next, stepped, remaining⟩ := executed
      simp only [Along, stepped] at permitted
      exact ih permitted.2 remaining (preserved source label next initial permitted.1 stepped)

/-- A schedule whose every step is allowed extends a run. -/
theorem Reaches.of_along {allowed : State → Label → Prop} {schedule : List Label}
    {source target : State} (reached : machine.Reaches allowed source)
    (permitted : machine.Along allowed source schedule)
    (executed : machine.run source schedule = some target) :
    machine.Reaches allowed target :=
  permitted.preserves executed (machine.Reaches allowed) reached fun _ _ _ => .step

theorem along_true (source : State) (schedule : List Label) :
    machine.Along (fun _ _ => True) source schedule := by
  induction schedule generalizing source with
  | nil => exact True.intro
  | cons label rest ih =>
      refine ⟨True.intro, ?_⟩
      cases machine.step source label with
      | none => exact True.intro
      | some next => exact ih next

/-- Every executed schedule ends in a reachable state. -/
theorem Reachable.of_run {schedule : List Label} {source target : State}
    (started : machine.start source)
    (executed : machine.run source schedule = some target) :
    machine.Reachable target :=
  Reaches.of_along (.start started) (along_true source schedule) executed

/-- What is found at the end of a schedule is found in a reachable state. -/
theorem exists_of_run (schedule : List Label) {source : State} {holds : State → Prop}
    (started : machine.start source)
    (found : ∃ state ∈ machine.run source schedule, holds state) :
    ∃ state, machine.Reachable state ∧ holds state :=
  found.imp fun _ ends => ⟨.of_run started ends.1, ends.2⟩

/-- A property that every step preserves survives a schedule. -/
theorem run_preserves {schedule : List Label} {source target : State}
    (holds : State → Prop) (initial : holds source)
    (preserved : ∀ state label next, holds state → machine.step state label = some next →
      holds next)
    (executed : machine.run source schedule = some target) : holds target :=
  (along_true source schedule).preserves executed holds initial
    fun state label next held _ => preserved state label next held

/-- Two conditions that agree in the reachable states, on the steps that are known, hold along the
same schedules of such steps. -/
theorem Along.congr {known first second : State → Label → Prop} {schedule : List Label}
    {source : State} (permitted : machine.Along known source schedule)
    (reached : machine.Reachable source)
    (same : ∀ state label, machine.Reachable state → known state label →
      (first state label ↔ second state label)) :
    machine.Along first source schedule ↔ machine.Along second source schedule := by
  induction schedule generalizing source with
  | nil => exact Iff.rfl
  | cons label rest ih =>
      simp only [Along] at permitted ⊢
      apply and_congr (same source label reached permitted.1)
      cases stepped : machine.step source label with
      | none => exact Iff.rfl
      | some next =>
          rw [stepped] at permitted
          exact ih permitted.2 (.step reached True.intro stepped)

/-- If a step that is not allowed breaks something for good, a schedule that ends
with nothing broken has only allowed steps. -/
theorem along_of_unbroken {allowed : State → Label → Prop} {schedule : List Label}
    {source target : State} (holds broken : State → Prop) (initial : holds source)
    (preserved : ∀ state label next, holds state → machine.step state label = some next →
      holds next)
    (breaks : ∀ state label next, holds state → ¬ allowed state label →
      machine.step state label = some next → broken next)
    (stays : ∀ state label next, holds state → broken state →
      machine.step state label = some next → broken next)
    (executed : machine.run source schedule = some target) (unbroken : ¬ broken target) :
    machine.Along allowed source schedule := by
  induction schedule generalizing source with
  | nil => exact True.intro
  | cons label rest ih =>
      simp only [run, Option.bind_eq_some_iff] at executed
      obtain ⟨next, stepped, remaining⟩ := executed
      have kept := preserved source label next initial stepped
      constructor
      · apply Classical.byContradiction
        intro refused
        have both := run_preserves (fun state => holds state ∧ broken state)
          ⟨kept, breaks source label next initial refused stepped⟩
          (fun state label next both stepped =>
            ⟨preserved state label next both.1 stepped,
              stays state label next both.1 both.2 stepped⟩) remaining
        exact unbroken both.2
      · rw [stepped]
        exact ih kept remaining

/-- If an invariant that gives the property is preserved by the allowed steps, and
every other step breaks the property at once, then a schedule has the property
throughout exactly when all its steps are allowed. -/
theorem throughout_iff_along {allowed : State → Label → Prop} {schedule : List Label}
    {source target : State} (holds kept : State → Prop) (initial : kept source)
    (gives : ∀ state, kept state → holds state)
    (preserved : ∀ state label next, kept state → allowed state label →
      machine.step state label = some next → kept next)
    (breaks : ∀ state label next, kept state → ¬ allowed state label →
      machine.step state label = some next → ¬ holds next)
    (executed : machine.run source schedule = some target) :
    machine.Throughout holds source schedule ↔ machine.Along allowed source schedule := by
  induction schedule generalizing source with
  | nil => exact ⟨fun _ => True.intro, fun _ => gives source initial⟩
  | cons label rest ih =>
      simp only [run, Option.bind_eq_some_iff] at executed
      obtain ⟨next, stepped, remaining⟩ := executed
      simp only [Throughout, Along, stepped]
      constructor
      · rintro ⟨_, later⟩
        have permitted : allowed source label := by
          apply Classical.byContradiction
          intro refused
          refine breaks source label next initial refused stepped ?_
          cases rest with
          | nil => exact later
          | cons _ _ => exact later.1
        exact ⟨permitted,
          (ih (preserved source label next initial permitted stepped) remaining).mp later⟩
      · rintro ⟨permitted, later⟩
        exact ⟨gives source initial,
          (ih (preserved source label next initial permitted stepped) remaining).mpr later⟩

instance along_decidable {allowed : State → Label → Prop}
    [decidable : ∀ state label, Decidable (allowed state label)] :
    (source : State) → (schedule : List Label) →
      Decidable (machine.Along allowed source schedule)
  | _, [] => .isTrue True.intro
  | source, label :: rest =>
      have _ : Decidable (match machine.step source label with
          | none => True
          | some next => machine.Along allowed next rest) :=
        match machine.step source label with
        | none => .isTrue True.intro
        | some next => along_decidable next rest
      inferInstanceAs (Decidable (_ ∧ _))

end Automaton

end Concurrency
