import Mathlib.Algebra.BigOperators.Ring.Finset
import WorkQueue.Foundation.FinMap

/-! # Counting semaphores with a ledger of holders

A ledger keeps one shared count of the slots taken together with a separate
count for every holder. Taking and returning a slot moves both counts, and
forgetting a holder removes its own count and subtracts it from the shared one,
which is then raised to zero if the subtraction made it negative
(`Ledger.forget`).

The two sides of the ledger stay equal along every operation except a
forgetting that hits the floor (`Ledger.Balanced.forget`). A ledger accounts for
a population of slot users when it is balanced and every holder's count is the
number of its users (`Ledger.Accounts`); the shared count then bounds the users
of any finite set of holders (`Ledger.Accounts.sum_le_count`).
-/

/-- A shared count of taken slots and the count of every holder. -/
structure Ledger (Holder : Type) where
  count : Int
  held : FinMap Holder Int

namespace Ledger

variable {Holder : Type} [DecidableEq Holder]

/-- A holder takes a slot. -/
def acquire (ledger : Ledger Holder) (holder : Holder) : Ledger Holder where
  count := ledger.count + 1
  held := ledger.held.set holder (ledger.held.amount holder + 1)

/-- A holder returns a slot. Nothing checks that it has one. -/
def release (ledger : Ledger Holder) (holder : Holder) : Ledger Holder where
  count := ledger.count - 1
  held := ledger.held.set holder (ledger.held.amount holder - 1)

/-- Remove a holder with everything it holds, never leaving a negative shared
count behind. A holder that is not on the ledger changes nothing. -/
def forget (ledger : Ledger Holder) (holder : Holder) : Ledger Holder :=
  match ledger.held.get holder with
  | none => ledger
  | some amount =>
      { count := if ledger.count - amount < 0 then 0 else ledger.count - amount
        held := ledger.held.erase holder }

/-- The shared count is the sum of the holders' counts. -/
def Balanced (ledger : Ledger Holder) : Prop := ledger.count = ledger.held.total

theorem Balanced.acquire {ledger : Ledger Holder} (balanced : ledger.Balanced) (holder : Holder) :
    (ledger.acquire holder).Balanced := by
  unfold Balanced Ledger.acquire at *
  simp only [FinMap.total_set]
  omega

theorem Balanced.release {ledger : Ledger Holder} (balanced : ledger.Balanced) (holder : Holder) :
    (ledger.release holder).Balanced := by
  unfold Balanced Ledger.release at *
  simp only [FinMap.total_set]
  omega

/-- Forgetting keeps the two sides equal as long as the floor is not hit. -/
theorem Balanced.forget {ledger : Ledger Holder} (balanced : ledger.Balanced) (holder : Holder)
    (above : ledger.held.amount holder ≤ ledger.count) : (ledger.forget holder).Balanced := by
  unfold Ledger.forget
  cases bound : ledger.held.get holder with
  | none => exact balanced
  | some amount =>
      have held : ledger.held.amount holder = amount := by
        rw [FinMap.amount, bound, Option.getD_some]
      unfold Balanced at *
      have floor : ¬ ledger.count - amount < 0 := by omega
      simp only [floor, ↓reduceIte, FinMap.total_erase, held]
      omega

theorem amount_acquire_self (ledger : Ledger Holder) (holder : Holder) :
    (ledger.acquire holder).held.amount holder = ledger.held.amount holder + 1 :=
  FinMap.amount_set_self ..

theorem amount_acquire_of_ne (ledger : Ledger Holder) {holder other : Holder}
    (different : other ≠ holder) :
    (ledger.acquire holder).held.amount other = ledger.held.amount other :=
  FinMap.amount_set_of_ne _ _ different

theorem amount_release_self (ledger : Ledger Holder) (holder : Holder) :
    (ledger.release holder).held.amount holder = ledger.held.amount holder - 1 :=
  FinMap.amount_set_self ..

theorem amount_release_of_ne (ledger : Ledger Holder) {holder other : Holder}
    (different : other ≠ holder) :
    (ledger.release holder).held.amount other = ledger.held.amount other :=
  FinMap.amount_set_of_ne _ _ different

/-- Forgetting a holder leaves every other holder's entry alone. -/
theorem forget_get_of_ne (ledger : Ledger Holder) {holder other : Holder}
    (different : other ≠ holder) :
    (ledger.forget holder).held.get other = ledger.held.get other := by
  unfold forget
  cases ledger.held.get holder with
  | none => rfl
  | some amount => exact FinMap.get_erase_of_ne _ different

/-- A forgotten holder has no entry. -/
theorem forget_get_self (ledger : Ledger Holder) (holder : Holder) :
    (ledger.forget holder).held.get holder = none := by
  unfold forget
  cases bound : ledger.held.get holder with
  | none => exact bound
  | some amount => exact FinMap.get_erase_self _ _

/-- The ledger is balanced and gives every holder the number of its users. -/
structure Accounts (ledger : Ledger Holder) (users : Holder → Nat) : Prop where
  balanced : ledger.Balanced
  counted : ∀ holder, ledger.held.amount holder = users holder

namespace Accounts

variable {ledger : Ledger Holder} {users : Holder → Nat}

omit [DecidableEq Holder] in
theorem congr (accounts : ledger.Accounts users) {others : Holder → Nat}
    (same : ∀ holder, others holder = users holder) : ledger.Accounts others :=
  ⟨accounts.balanced, fun holder => by rw [accounts.counted, same]⟩

/-- A new user of a holder matches an acquired slot. -/
theorem acquire (accounts : ledger.Accounts users) (holder : Holder) :
    (ledger.acquire holder).Accounts (Function.update users holder (users holder + 1)) := by
  refine ⟨accounts.balanced.acquire holder, ?_⟩
  intro other
  by_cases same : other = holder
  · subst same
    rw [amount_acquire_self, Function.update_self, accounts.counted, Nat.cast_add, Nat.cast_one]
  · rw [amount_acquire_of_ne _ same, Function.update_of_ne same, accounts.counted]

/-- A leaving user of a holder matches a returned slot. -/
theorem release (accounts : ledger.Accounts users) (holder : Holder) {remaining : Nat}
    (present : users holder = remaining + 1) :
    (ledger.release holder).Accounts (Function.update users holder remaining) := by
  refine ⟨accounts.balanced.release holder, ?_⟩
  intro other
  by_cases same : other = holder
  · subst same
    rw [amount_release_self, Function.update_self, accounts.counted, present, Nat.cast_add,
      Nat.cast_one, add_sub_cancel_right]
  · rw [amount_release_of_ne _ same, Function.update_of_ne same, accounts.counted]

omit [DecidableEq Holder] in
/-- The shared count is never negative while the ledger accounts for users. -/
theorem count_nonneg (accounts : ledger.Accounts users) : 0 ≤ ledger.count := by
  rw [accounts.balanced]
  exact Finset.sum_nonneg fun holder _ => by rw [accounts.counted]; exact Int.natCast_nonneg _

/-- A holder without users can be forgotten. -/
theorem forget (accounts : ledger.Accounts users) (holder : Holder) (gone : users holder = 0) :
    (ledger.forget holder).Accounts users := by
  have nothing : ledger.held.amount holder = 0 := by rw [accounts.counted, gone, Nat.cast_zero]
  refine ⟨accounts.balanced.forget holder (by rw [nothing]; exact accounts.count_nonneg), ?_⟩
  intro other
  by_cases same : other = holder
  · subst same
    rw [FinMap.amount, forget_get_self, gone]
    rfl
  · rw [FinMap.amount, forget_get_of_ne _ same, ← FinMap.amount, accounts.counted]

/-- Forgetting a holder without users leaves the shared count alone. -/
theorem count_forget (accounts : ledger.Accounts users) (holder : Holder)
    (gone : users holder = 0) : (ledger.forget holder).count = ledger.count := by
  have nothing : ledger.held.amount holder = 0 := by rw [accounts.counted, gone, Nat.cast_zero]
  unfold Ledger.forget
  cases bound : ledger.held.get holder with
  | none => rfl
  | some amount =>
      have zero : amount = 0 := by
        rw [← nothing, FinMap.amount, bound, Option.getD_some]
      have := accounts.count_nonneg
      simp only [zero]
      omega

/-- The users of any finite set of holders fit into the shared count. -/
theorem sum_le_count (accounts : ledger.Accounts users) (holders : Finset Holder) :
    ((∑ holder ∈ holders, users holder : Nat) : Int) ≤ ledger.count := by
  rw [accounts.balanced, Nat.cast_sum]
  have nonnegative : ∀ holder, 0 ≤ ledger.held.amount holder := by
    intro holder
    rw [accounts.counted]
    exact Int.natCast_nonneg _
  simp only [← accounts.counted]
  exact ledger.held.sum_amount_le_total nonnegative holders

end Accounts

end Ledger
