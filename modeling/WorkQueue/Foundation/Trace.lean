import WorkQueue.Foundation.Transition
import Mathlib.Data.List.Basic

/-! # What executions give out

The steps of an execution may give something out. A part of the state is served in order if
what a step gives out is the front of that part and everything new is put behind the rest. Then
a whole execution gives out the same elements in the same order
(`TransitionSystem.outputs_served`).
-/

namespace TransitionSystem

variable {State Event Output : Type} (system : TransitionSystem State Event)

/-- What the steps of an execution give out, in their order. -/
def outputs (output : State → Event → List Output) : State → List Event → List Output
  | _, [] => []
  | state, event :: events =>
      output state event ++
        (system.step state event).elim [] fun next => outputs output next events

variable {system} {output : State → Event → List Output}

@[simp] theorem outputs_nil (state : State) : system.outputs output state [] = [] := rfl

theorem outputs_cons {state next : State} {event : Event} (events : List Event)
    (stepped : system.step state event = some next) :
    system.outputs output state (event :: events) =
      output state event ++ system.outputs output next events := by
  rw [outputs, stepped, Option.elim_some]

theorem run_cons {scope : State → Event → Prop} [∀ state event, Decidable (scope state event)]
    {state target : State} {event : Event} {events : List Event} :
    system.run scope state (event :: events) = some target ↔
      scope state event ∧ ∃ next, system.step state event = some next ∧
        system.run scope next events = some target := by
  rw [run]
  by_cases allowed : scope state event
  · rw [if_pos allowed]
    cases system.step state event with
    | none => simp
    | some next => simp [allowed]
  · simp [allowed]

/-- What every step serves in order is served in order by whole executions. -/
theorem outputs_served {scope : State → Event → Prop}
    [∀ state event, Decidable (scope state event)] (output : State → Event → List Output)
    (view : State → List Output)
    (served : ∀ source event target, system.Reachable scope source → scope source event →
      system.step source event = some target →
      ∃ added, output source event ++ view target = view source ++ added)
    {events : List Event} {source target : State} (reachable : system.Reachable scope source)
    (executed : system.run scope source events = some target) :
    ∃ added, system.outputs output source events ++ view target = view source ++ added := by
  induction events generalizing source with
  | nil =>
      obtain rfl := Option.some.inj executed
      exact ⟨[], by simp⟩
  | cons event events ih =>
      obtain ⟨allowed, next, stepped, rest⟩ := run_cons.mp executed
      obtain ⟨first, now⟩ := served source event next reachable allowed stepped
      obtain ⟨added, later⟩ := ih (.step reachable allowed stepped) rest
      refine ⟨first ++ added, ?_⟩
      calc system.outputs output source (event :: events) ++ view target
          = output source event ++ (system.outputs output next events ++ view target) := by
            rw [outputs_cons events stepped, List.append_assoc]
        _ = output source event ++ view next ++ added := by rw [later, List.append_assoc]
        _ = view source ++ (first ++ added) := by rw [now, List.append_assoc]

end TransitionSystem
