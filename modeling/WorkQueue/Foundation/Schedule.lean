import Mathlib.Order.Lattice

/-! # Occurrences of a schedule

A schedule is given by the next occurrence after each time. Whoever asks for the next
occurrence again and again misses none: what is done covers the time from the start of the
search to the occurrence that comes next (`Schedule.Covered.extend`). Stretches of time that
overlap are covered together (`Schedule.Covered.join`).
-/

/-- The function gives the least occurrence after a time. -/
structure Schedule {Time : Type*} [LinearOrder Time] (next : Time → Time) : Prop where
  after : ∀ time, time < next time
  least : ∀ time other, time < next other → next time ≤ next other

namespace Schedule

variable {Time : Type*} [LinearOrder Time] {next : Time → Time} {done : Time → Prop}
  {start mid stop time : Time}

/-- A time at which the schedule occurs. -/
def Occurrence (next : Time → Time) (time : Time) : Prop := ∃ other, next other = time

/-- All occurrences strictly between two times are done. -/
def Covered (next : Time → Time) (done : Time → Prop) (start stop : Time) : Prop :=
  ∀ time, Occurrence next time → start < time → time < stop → done time

/-- Nothing occurs before the next occurrence. -/
theorem covered_next (schedule : Schedule next) : Covered next done start (next start) := by
  rintro _ ⟨other, rfl⟩ later earlier
  exact absurd earlier (schedule.least _ _ later).not_gt

namespace Covered

theorem shorten (covered : Covered next done start stop) (earlier : time ≤ stop) :
    Covered next done start time := fun other occurs later before =>
  covered other occurs later (before.trans_le earlier)

theorem mono {more : Time → Prop} (covered : Covered next done start stop)
    (weaker : ∀ time, done time → more time) : Covered next more start stop :=
  fun other occurs later before => weaker other (covered other occurs later before)

/-- Doing the occurrence that comes next covers the time to the one after it. -/
theorem extend (schedule : Schedule next) (covered : Covered next done start stop)
    (added : done stop) : Covered next done start (next stop) := by
  intro time occurs later earlier
  rcases lt_trichotomy time stop with before | rfl | behind
  · exact covered time occurs later before
  · exact added
  · exact covered_next schedule time occurs behind earlier

/-- Two stretches that overlap are covered together. -/
theorem join (first : Covered next done start stop) (second : Covered next done mid time)
    (overlap : mid < stop) : Covered next done start time := by
  intro other occurs later earlier
  rcases lt_or_ge other stop with before | behind
  · exact first other occurs later before
  · exact second other occurs (overlap.trans_le behind) earlier

end Covered

end Schedule
