import Mathlib.Algebra.Order.Ring.Int
import Mathlib.Tactic.Ring
import WorkQueue.Foundation.Transition

/-! # Steps in time and clocks that show whole units

A stamped system runs like the system it is made of, with a time at every step. Parties do not
see that time. They read clocks that show the whole units of an instant near it, a little before
or after, so that two readings bound the time between them (`Clock.Shows.lt_add`,
`Clock.Shows.add_le`).
-/

namespace TransitionSystem

variable {State Event : Type}

/-- A system whose steps carry the time at which they are taken. -/
def stamped (system : TransitionSystem State Event) : TransitionSystem State (ℤ × Event) where
  initial := system.initial
  step state event := system.step state event.2

/-- Forgetting the times turns a stamped run into a run of the system. -/
theorem Reachable.of_stamped {system : TransitionSystem State Event} {scope : State → Event → Prop}
    {state : State}
    (reachable : system.stamped.Reachable (fun state event => scope state event.2) state) :
    system.Reachable scope state := by
  induction reachable with
  | initial start => exact .initial start
  | step _ allowed stepped ih => exact .step ih allowed stepped

end TransitionSystem

namespace Clock

variable {unit early late early' late' shown shown' count : ℤ}

/-- A clock shows the whole units of some instant between two. -/
def Shows (unit early late shown : ℤ) : Prop :=
  ∃ instant, early ≤ instant ∧ instant ≤ late ∧ instant / unit = shown

theorem shows_iff (positive : 0 < unit) :
    Shows unit early late shown ↔
      early ≤ late ∧ early < (shown + 1) * unit ∧ shown * unit ≤ late := by
  rw [add_one_mul]
  constructor
  · intro ⟨instant, after, before, same⟩
    rw [Int.ediv_eq_iff_of_pos positive] at same
    exact ⟨after.trans before, after.trans_lt same.2, same.1.trans before⟩
  · intro ⟨ordered, lower, upper⟩
    refine ⟨max early (shown * unit), le_max_left _ _, max_le ordered upper, ?_⟩
    rw [Int.ediv_eq_iff_of_pos positive]
    exact ⟨le_max_right _ _, max_lt lower (lt_add_of_pos_right _ positive)⟩

theorem Shows.mul_le (positive : 0 < unit) (shows : Shows unit early late shown) :
    shown * unit ≤ late := by
  obtain ⟨instant, _, before, rfl⟩ := shows
  exact (Int.ediv_mul_le instant positive.ne').trans before

theorem Shows.lt_mul (positive : 0 < unit) (shows : Shows unit early late shown) :
    early < (shown + 1) * unit := by
  obtain ⟨instant, after, _, rfl⟩ := shows
  exact after.trans_lt (Int.lt_ediv_add_one_mul_self instant positive)

/-- A reading that is not long after another shows fewer units more. The first may have been
taken at the end of what it shows. -/
theorem Shows.lt_add (positive : 0 < unit) (first : Shows unit early late shown)
    (second : Shows unit early' late' shown') (close : late' ≤ early + (count - 1) * unit) :
    shown' < shown + count := by
  have lower := first.lt_mul positive
  have upper := second.mul_le positive
  have : shown' * unit < (shown + count) * unit := by
    calc shown' * unit ≤ early + (count - 1) * unit := upper.trans close
      _ < (shown + 1) * unit + (count - 1) * unit := by gcongr
      _ = (shown + count) * unit := by ring
  exact lt_of_mul_lt_mul_right this positive.le

/-- A reading that is long after another shows at least as many units more. -/
theorem Shows.add_le (positive : 0 < unit) (first : Shows unit early late shown)
    (second : Shows unit early' late' shown') (apart : late + count * unit ≤ early') :
    shown + count ≤ shown' := by
  have upper := first.mul_le positive
  have lower := second.lt_mul positive
  have : (shown + count) * unit < (shown' + 1) * unit := by
    calc (shown + count) * unit = shown * unit + count * unit := add_mul _ _ _
      _ ≤ late + count * unit := by gcongr
      _ ≤ early' := apart
      _ < (shown' + 1) * unit := lower
  exact Int.lt_add_one_iff.mp (lt_of_mul_lt_mul_right this positive.le)

end Clock
