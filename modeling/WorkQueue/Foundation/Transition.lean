import Mathlib.Order.Basic

/-! # Transition systems driven by events

A transition system steps a state under an event that resolves every
nondeterministic choice, so that one event has at most one successor. Runs are
restricted by a scope, a relation saying which events a state admits: a safety
statement about a class of interleavings is an invariant of the states
reachable within its scope (`TransitionSystem.Reachable.invariant`).

A monitor adds memory that the steps write and never read. It expresses
statements about the past of a run as invariants of the monitored system, whose
runs are those of the system itself (`TransitionSystem.Reachable.of_monitored`).
-/

/-- Initial states and the partial successor function of an event. -/
structure TransitionSystem (State Event : Type) where
  initial : State → Prop
  step : State → Event → Option State

namespace TransitionSystem

variable {State Event Memory : Type} (system : TransitionSystem State Event)

/-- The states reached from an initial state by steps within the scope. -/
inductive Reachable (scope : State → Event → Prop) : State → Prop
  | initial {state : State} : system.initial state → Reachable scope state
  | step {source target : State} {event : Event} : Reachable scope source →
      scope source event → system.step source event = some target → Reachable scope target

variable {system}

/-- What holds initially and is kept by every step within the scope holds in
every reachable state. The step may use that its source is reachable. -/
theorem Reachable.invariant {scope : State → Event → Prop} (holds : State → Prop)
    (initially : ∀ state, system.initial state → holds state)
    (preserved : ∀ source event target, system.Reachable scope source → holds source →
      scope source event → system.step source event = some target → holds target)
    {state : State} (reachable : system.Reachable scope state) : holds state := by
  induction reachable with
  | initial start => exact initially _ start
  | step reachable allowed stepped ih => exact preserved _ _ _ reachable ih allowed stepped

/-- A wider scope reaches at least as much. -/
theorem Reachable.mono {narrow wide : State → Event → Prop}
    (weaker : ∀ state event, narrow state event → wide state event) {state : State}
    (reachable : system.Reachable narrow state) : system.Reachable wide state := by
  induction reachable with
  | initial start => exact .initial start
  | step _ allowed stepped ih => exact .step ih (weaker _ _ allowed) stepped

/-- A scope that is wider where the narrow one leads reaches at least as much. -/
theorem Reachable.widen {narrow wide : State → Event → Prop}
    (weaker : ∀ state event next, system.Reachable narrow state → narrow state event →
      system.step state event = some next → wide state event) {state : State}
    (reachable : system.Reachable narrow state) : system.Reachable wide state := by
  induction reachable with
  | initial start => exact .initial start
  | step reached allowed stepped ih =>
      exact .step ih (weaker _ _ _ reached allowed stepped) stepped

section Leads

variable (system)

/-- The states reached from a given state by steps within the scope. -/
inductive Leads (scope : State → Event → Prop) (source : State) : State → Prop
  | refl : Leads scope source source
  | step {state target : State} {event : Event} : Leads scope source state →
      scope state event → system.step state event = some target → Leads scope source target

variable {system}

/-- What holds at the source and is kept by every step within the scope holds wherever the
steps lead. -/
theorem Leads.invariant {scope : State → Event → Prop} {source target : State}
    (holds : State → Prop) (initially : holds source)
    (preserved : ∀ state event next, holds state → scope state event →
      system.step state event = some next → holds next)
    (leads : system.Leads scope source target) : holds target := by
  induction leads with
  | refl => exact initially
  | step _ allowed stepped ih => exact preserved _ _ _ ih allowed stepped

theorem Reachable.extend {narrow wide : State → Event → Prop} {source target : State}
    (reachable : system.Reachable wide source) (leads : system.Leads narrow source target)
    (weaker : ∀ state event, narrow state event → wide state event) :
    system.Reachable wide target :=
  leads.invariant _ reachable fun _ _ _ reached allowed stepped =>
    .step reached (weaker _ _ allowed) stepped

end Leads

section Run

variable (system)

/-- Execute a list of events, all within the scope. -/
def run (scope : State → Event → Prop) [∀ state event, Decidable (scope state event)] :
    State → List Event → Option State
  | state, [] => some state
  | state, event :: events =>
      if scope state event then
        match system.step state event with
        | some next => run scope next events
        | none => none
      else none

variable {system}

/-- A list of events leads to the state that it executes to. -/
theorem Leads.run {scope : State → Event → Prop} [∀ state event, Decidable (scope state event)]
    {events : List Event} {source target : State}
    (executed : system.run scope source events = some target) :
    system.Leads scope source target := by
  suffices continued : ∀ {start : State}, system.Leads scope source start →
      system.run scope start events = some target → system.Leads scope source target from
    continued .refl executed
  clear executed
  induction events with
  | nil =>
      intro start leads executed
      simp only [TransitionSystem.run, Option.some.injEq] at executed
      exact executed ▸ leads
  | cons event events ih =>
      intro start leads executed
      simp only [TransitionSystem.run] at executed
      by_cases allowed : scope start event
      · simp only [allowed, ↓reduceIte] at executed
        cases stepped : system.step start event with
        | none => simp only [stepped, reduceCtorEq] at executed
        | some next =>
            simp only [stepped] at executed
            exact ih (.step leads allowed stepped) executed
      · simp only [allowed, ↓reduceIte, reduceCtorEq] at executed

theorem Reachable.run {scope : State → Event → Prop}
    [∀ state event, Decidable (scope state event)] {events : List Event} {source target : State}
    (reachable : system.Reachable scope source)
    (executed : system.run scope source events = some target) :
    system.Reachable scope target := reachable.extend (.run executed) fun _ _ allowed => allowed

/-- A property that a list of events leads to is one of a reachable state. -/
theorem Reachable.exists_of_run {scope : State → Event → Prop}
    [∀ state event, Decidable (scope state event)] {holds : State → Prop} [DecidablePred holds]
    (events : List Event) {source : State} (start : system.initial source)
    (executed : ((system.run scope source events).any fun state => holds state) = true) :
    ∃ target, system.Reachable scope target ∧ holds target := by
  obtain ⟨target, reached, satisfied⟩ := (Option.any_eq_true _ _).mp executed
  exact ⟨target, Reachable.run (.initial start) reached, of_decide_eq_true satisfied⟩

end Run

section Monitor

variable (system)

/-- Run a system together with a memory of its past. -/
def monitored (start : Memory) (observe : Memory → State → Event → State → Memory) :
    TransitionSystem (State × Memory) Event where
  initial := fun pair => system.initial pair.1 ∧ pair.2 = start
  step := fun pair event =>
    (system.step pair.1 event).map fun next => (next, observe pair.2 pair.1 event next)

variable {system} {start : Memory} {observe : Memory → State → Event → State → Memory}

theorem monitored_step {pair next : State × Memory} {event : Event}
    (stepped : (system.monitored start observe).step pair event = some next) :
    system.step pair.1 event = some next.1 ∧
      next.2 = observe pair.2 pair.1 event next.1 := by
  obtain ⟨target, reached, rfl⟩ := Option.map_eq_some_iff.mp stepped
  exact ⟨reached, rfl⟩

theorem initial_monitored {source : State} (begun : system.initial source) :
    (system.monitored start observe).initial (source, start) := ⟨begun, rfl⟩

/-- What holds initially and is kept by every step, with the memory after it, holds in
every monitored run. -/
theorem Reachable.monitored_invariant {scope : State × Memory → Event → Prop}
    (holds : State → Memory → Prop) (initially : ∀ state, system.initial state → holds state start)
    (preserved : ∀ source memory event target,
      (system.monitored start observe).Reachable scope (source, memory) → holds source memory →
      scope (source, memory) event → system.step source event = some target →
      holds target (observe memory source event target))
    {pair : State × Memory} (reachable : (system.monitored start observe).Reachable scope pair) :
    holds pair.1 pair.2 := by
  induction reachable with
  | initial begun => exact begun.2 ▸ initially _ begun.1
  | step reachable allowed stepped ih =>
      obtain ⟨moved, observed⟩ := monitored_step stepped
      rw [observed]
      exact preserved _ _ _ _ reachable ih allowed moved

/-- Forgetting the memory turns a monitored run into a run of the system. -/
theorem Reachable.of_monitored {scope : State → Event → Prop} {pair : State × Memory}
    (reachable : (system.monitored start observe).Reachable
      (fun pair event => scope pair.1 event) pair) :
    system.Reachable scope pair.1 := by
  induction reachable with
  | initial begun => exact .initial begun.1
  | step _ allowed stepped ih => exact .step ih allowed (monitored_step stepped).1

end Monitor

end TransitionSystem
