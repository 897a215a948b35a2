import Mathlib.Logic.Function.Basic
import WorkQueue.Foundation.Transition

/-! # Systems that share a memory

Any number of transition systems take steps in turn, and every step also writes a memory that
they share. Each system has a relation between the memory and its own state. If a step keeps the
relation of its own system and leaves the relations of the others intact, all of them hold in
every interleaving (`TransitionSystem.Reachable.shared`).
-/

namespace TransitionSystem

variable {Index State Event Memory : Type} [DecidableEq Index]
  {systems : Index → TransitionSystem State Event} {related : Index → Memory → State → Prop}
  {write : Index → State → Event → Memory → Memory} {scope : Index → State → Event → Prop}

/-- The systems side by side with the memory that their steps write. -/
def sharing (systems : Index → TransitionSystem State Event)
    (related : Index → Memory → State → Prop)
    (write : Index → State → Event → Memory → Memory) :
    TransitionSystem ((Index → State) × Memory) (Index × Event) where
  initial pair := ∀ index, (systems index).initial (pair.1 index) ∧
    related index pair.2 (pair.1 index)
  step pair event := ((systems event.1).step (pair.1 event.1) event.2).map fun next =>
    (Function.update pair.1 event.1 next, write event.1 (pair.1 event.1) event.2 pair.2)

/-- Every step is within the scope of its own system. -/
def ownScope (scope : Index → State → Event → Prop) (pair : (Index → State) × Memory)
    (event : Index × Event) : Prop := scope event.1 (pair.1 event.1) event.2

instance [∀ index state event, Decidable (scope index state event)]
    (pair : (Index → State) × Memory) (event : Index × Event) :
    Decidable (ownScope scope pair event) :=
  inferInstanceAs (Decidable (scope event.1 (pair.1 event.1) event.2))

/-- Every part of an interleaving is a run of its own system. -/
theorem Reachable.part {pair : (Index → State) × Memory}
    (reachable : (sharing systems related write).Reachable (ownScope scope) pair)
    (index : Index) :
    (systems index).Reachable (scope index) (pair.1 index) := by
  induction reachable with
  | initial start => exact .initial (start index).1
  | @step source target event _ allowed stepped ih =>
      obtain ⟨next, moved, rfl⟩ := Option.map_eq_some_iff.mp stepped
      by_cases same : index = event.1
      · subst same
        simp only [Function.update_self]
        exact .step ih allowed moved
      · simp only [Function.update_of_ne same]
        exact ih

/-- What each step keeps for its own system and leaves intact for the others holds in every
interleaving. -/
theorem Reachable.shared
    (own : ∀ index state event next memory, (systems index).Reachable (scope index) state →
      scope index state event → (systems index).step state event = some next →
      related index memory state → related index (write index state event memory) next)
    (others : ∀ index other state event next memory state', index ≠ other →
      (systems index).Reachable (scope index) state → scope index state event →
      (systems index).step state event = some next → related index memory state →
      related other memory state' → related other (write index state event memory) state')
    {pair : (Index → State) × Memory}
    (reachable : (sharing systems related write).Reachable (ownScope scope) pair)
    (index : Index) :
    related index pair.2 (pair.1 index) := by
  induction reachable generalizing index with
  | initial start => exact (start index).2
  | @step source target event reached allowed stepped ih =>
      obtain ⟨next, moved, rfl⟩ := Option.map_eq_some_iff.mp stepped
      have acting := reached.part event.1
      by_cases same : index = event.1
      · subst same
        simp only [Function.update_self]
        exact own _ _ _ _ _ acting allowed moved (ih _)
      · simp only [Function.update_of_ne same]
        exact others _ _ _ _ _ _ _ (Ne.symm same) acting allowed moved (ih _) (ih _)

end TransitionSystem
