import Mathlib.Order.Basic
import WorkQueue.Foundation.Transition

/-! # Goals that can always be reached

A goal can be reached from every state of an invariant if some step leads from each of them,
short of the goal, to a state of the invariant with a smaller measure
(`TransitionSystem.exists_leads`).
-/

namespace TransitionSystem

variable {State Event : Type} {system : TransitionSystem State Event}
  {scope : State → Event → Prop}

theorem Leads.trans {source state target : State} (first : system.Leads scope source state)
    (second : system.Leads scope state target) : system.Leads scope source target := by
  induction second with
  | refl => exact first
  | step _ allowed stepped ih => exact .step ih allowed stepped

/-- Steps that lower a measure lead to the goal. -/
theorem exists_leads {invariant goal : State → Prop} (measure : State → ℕ)
    (progress : ∀ state, invariant state → ¬ goal state → ∃ event next, scope state event ∧
      system.step state event = some next ∧ invariant next ∧ measure next < measure state)
    {state : State} (holds : invariant state) :
    ∃ target, system.Leads scope state target ∧ goal target := by
  induction bound : measure state using Nat.strongRecOn generalizing state with
  | ind size ih =>
      by_cases reached : goal state
      · exact ⟨state, .refl, reached⟩
      · obtain ⟨event, next, allowed, stepped, kept, smaller⟩ := progress state holds reached
        obtain ⟨target, leads, reached⟩ := ih (measure next) (bound ▸ smaller) kept rfl
        exact ⟨target, (Leads.step .refl allowed stepped).trans leads, reached⟩

end TransitionSystem
