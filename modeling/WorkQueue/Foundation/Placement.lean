import Mathlib.Data.Nat.Notation
import Mathlib.Logic.Function.Basic

/-! # A token in one of many places

Every place holds a number of copies of a token. The token is at a location when the
copies are one there and none anywhere else, and nowhere when there is no copy at all
(`PlacedAt`). Taking the token out of its place and putting it into another one moves
the location; operations on other tokens leave the counts alone.
-/

variable {Place : Type}

/-- The copies of a token are exactly one at the location, if there is one. -/
def PlacedAt (copies : Place → ℕ) (location : Option Place) : Prop :=
  ∀ place, (location = some place → copies place = 1) ∧
    (location ≠ some place → copies place = 0)

namespace PlacedAt

variable {copies after : Place → ℕ} {location : Option Place} {place : Place}

theorem congr (placed : PlacedAt copies location) (same : ∀ place, after place = copies place) :
    PlacedAt after location := by
  intro other
  rw [same other]
  exact placed other

/-- A place with a copy is the location. -/
theorem eq_of_pos (placed : PlacedAt copies location) (present : 0 < copies place) :
    location = some place := by
  by_contra elsewhere
  rw [(placed place).2 elsewhere] at present
  exact Nat.lt_irrefl 0 present

theorem unique (placed : PlacedAt copies location) {other : Option Place}
    (elsewhere : PlacedAt copies other) : location = other := by
  cases location with
  | some place =>
      refine (elsewhere.eq_of_pos ?_).symm
      rw [(placed place).1 rfl]
      exact Nat.one_pos
  | none =>
      cases other with
      | none => rfl
      | some place => exact absurd ((elsewhere place).1 rfl) (by simp [(placed place).2])

/-- Put the token into a place. -/
theorem put (placed : PlacedAt copies none) (more : after place = copies place + 1)
    (others : ∀ other, other ≠ place → after other = copies other) :
    PlacedAt after (some place) := by
  intro other
  have nothing : copies other = 0 := (placed other).2 (by simp)
  by_cases same : other = place
  · subst same
    exact ⟨fun _ => by rw [more, nothing], fun elsewhere => (elsewhere rfl).elim⟩
  · refine ⟨fun found => (same (Option.some.inj found).symm).elim, fun _ => ?_⟩
    rw [others other same, nothing]

/-- Take the token out of a place. -/
theorem take (placed : PlacedAt copies location) (place : Place)
    (fewer : copies place = after place + 1)
    (others : ∀ other, other ≠ place → after other = copies other) : PlacedAt after none := by
  have here : location = some place :=
    placed.eq_of_pos (by rw [fewer]; exact Nat.succ_pos _)
  intro other
  refine ⟨by simp, fun _ => ?_⟩
  by_cases same : other = place
  · subst same
    have one := (placed other).1 here
    omega
  · rw [others other same]
    exact (placed other).2 fun found => same (Option.some.inj (found.symm.trans here))

end PlacedAt
