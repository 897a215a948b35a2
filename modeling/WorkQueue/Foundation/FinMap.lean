import Mathlib.Algebra.BigOperators.Group.Finset.Basic
import Mathlib.Algebra.BigOperators.Group.Finset.Sigma
import Mathlib.Algebra.Order.BigOperators.Group.Finset
import Mathlib.Tactic.Abel

/-! # Finite maps with an explicit support

A finite map is a partial function together with the finite set of keys on
which it is defined. Absent keys and keys holding zero are different values of
the map, but they contribute the same amount to its total
(`FinMap.total_set`, `FinMap.total_erase`).
-/

/-- A partial function defined on a finite set of keys. -/
structure FinMap (Key Value : Type) where
  get : Key → Option Value
  support : Finset Key
  mem_support : ∀ key, key ∈ support ↔ (get key).isSome

namespace FinMap

variable {Key Value : Type} [DecidableEq Key]

/-- The map without keys. -/
def empty : FinMap Key Value where
  get := fun _ => none
  support := ∅
  mem_support := by simp

/-- Bind one key, replacing an earlier binding. -/
def set (map : FinMap Key Value) (key : Key) (value : Value) : FinMap Key Value where
  get := Function.update map.get key (some value)
  support := insert key map.support
  mem_support := by
    intro other
    by_cases same : other = key
    · subst same
      simp only [Finset.mem_insert, true_or, Function.update_self, Option.isSome_some]
    · simp only [Finset.mem_insert, same, false_or, Function.update_of_ne same, map.mem_support]

/-- Remove one key. -/
def erase (map : FinMap Key Value) (key : Key) : FinMap Key Value where
  get := Function.update map.get key none
  support := map.support.erase key
  mem_support := by
    intro other
    by_cases same : other = key
    · subst same
      simp only [Finset.mem_erase, ne_eq, not_true_eq_false, false_and, Function.update_self,
        Option.isSome_none, Bool.false_eq_true]
    · simp only [Finset.mem_erase, ne_eq, same, not_false_eq_true, true_and,
        Function.update_of_ne same, map.mem_support]

omit [DecidableEq Key] in
@[simp] theorem get_empty (key : Key) : (empty : FinMap Key Value).get key = none := rfl

@[simp] theorem get_set_self (map : FinMap Key Value) (key : Key) (value : Value) :
    (map.set key value).get key = some value := Function.update_self ..

@[simp] theorem get_set_of_ne (map : FinMap Key Value) {key other : Key} (value : Value)
    (different : other ≠ key) : (map.set key value).get other = map.get other :=
  Function.update_of_ne different ..

@[simp] theorem get_erase_self (map : FinMap Key Value) (key : Key) :
    (map.erase key).get key = none := Function.update_self ..

@[simp] theorem get_erase_of_ne (map : FinMap Key Value) {key other : Key}
    (different : other ≠ key) : (map.erase key).get other = map.get other :=
  Function.update_of_ne different ..

omit [DecidableEq Key] in
/-- A key outside the support is unbound. -/
theorem get_eq_none_of_notMem (map : FinMap Key Value) {key : Key}
    (absent : key ∉ map.support) : map.get key = none := by
  cases bound : map.get key with
  | none => rfl
  | some value => exact (absent ((map.mem_support key).mpr (by rw [bound]; rfl))).elim

omit [DecidableEq Key] in
/-- A map without bound keys has an empty support. -/
theorem support_eq_empty (map : FinMap Key Value) (unbound : ∀ key, map.get key = none) :
    map.support = ∅ := by
  apply Finset.eq_empty_of_forall_notMem
  intro key member
  have bound := (map.mem_support key).mp member
  rw [unbound key] at bound
  exact Bool.false_ne_true bound

omit [DecidableEq Key] in
/-- A map is determined by its bindings. -/
theorem eq_of_get {first second : FinMap Key Value}
    (agree : ∀ key, first.get key = second.get key) : first = second := by
  have bindings : first.get = second.get := funext agree
  have supports : first.support = second.support := by
    ext key
    rw [first.mem_support, second.mem_support, agree key]
  cases first
  cases second
  cases bindings
  cases supports
  rfl

theorem erase_set_self (map : FinMap Key Value) (key : Key) (value : Value) :
    (map.set key value).erase key = map.erase key := by
  refine eq_of_get fun other => ?_
  by_cases same : other = key
  · rw [same, get_erase_self, get_erase_self]
  · rw [get_erase_of_ne _ same, get_erase_of_ne _ same, get_set_of_ne _ _ same]

/-- Removing a key that is not bound changes nothing. -/
theorem erase_of_none (map : FinMap Key Value) {key : Key} (unbound : map.get key = none) :
    map.erase key = map := by
  refine eq_of_get fun other => ?_
  by_cases same : other = key
  · rw [same, get_erase_self, unbound]
  · rw [get_erase_of_ne _ same]

section Total

variable {Amount : Type} [AddCommGroup Amount]

/-- The amount held under a key; an absent key holds nothing. -/
def amount (map : FinMap Key Amount) (key : Key) : Amount := (map.get key).getD 0

/-- The sum of everything held. -/
def total (map : FinMap Key Amount) : Amount := ∑ key ∈ map.support, map.amount key

omit [DecidableEq Key] in
@[simp] theorem amount_empty (key : Key) : (empty : FinMap Key Amount).amount key = 0 := rfl

omit [DecidableEq Key] in
@[simp] theorem total_empty : (empty : FinMap Key Amount).total = 0 := rfl

@[simp] theorem amount_set_self (map : FinMap Key Amount) (key : Key) (value : Amount) :
    (map.set key value).amount key = value := by
  simp only [amount, get_set_self, Option.getD_some]

@[simp] theorem amount_set_of_ne (map : FinMap Key Amount) {key other : Key} (value : Amount)
    (different : other ≠ key) : (map.set key value).amount other = map.amount other := by
  simp only [amount, get_set_of_ne map value different]

@[simp] theorem amount_erase_self (map : FinMap Key Amount) (key : Key) :
    (map.erase key).amount key = 0 := by
  simp only [amount, get_erase_self, Option.getD_none]

@[simp] theorem amount_erase_of_ne (map : FinMap Key Amount) {key other : Key}
    (different : other ≠ key) : (map.erase key).amount other = map.amount other := by
  simp only [amount, get_erase_of_ne map different]

omit [DecidableEq Key] in
theorem amount_of_notMem (map : FinMap Key Amount) {key : Key} (absent : key ∉ map.support) :
    map.amount key = 0 := by
  rw [amount, map.get_eq_none_of_notMem absent, Option.getD_none]

omit [DecidableEq Key] in
/-- The total may be taken over any finite set that covers the support. -/
theorem total_eq_sum (map : FinMap Key Amount) {keys : Finset Key} (covers : map.support ⊆ keys) :
    map.total = ∑ key ∈ keys, map.amount key :=
  Finset.sum_subset covers fun _ _ absent => map.amount_of_notMem absent

/-- Two maps that agree away from one key differ in total by what that key holds. -/
theorem total_sub_total (first second : FinMap Key Amount) (key : Key)
    (agree : ∀ other, other ≠ key → first.amount other = second.amount other) :
    first.total - second.total = first.amount key - second.amount key := by
  let keys := insert key (first.support ∪ second.support)
  have coversFirst : first.support ⊆ keys :=
    Finset.subset_union_left.trans (Finset.subset_insert _ _)
  have coversSecond : second.support ⊆ keys :=
    Finset.subset_union_right.trans (Finset.subset_insert _ _)
  have present : key ∈ keys := Finset.mem_insert_self _ _
  rw [first.total_eq_sum coversFirst, second.total_eq_sum coversSecond,
    ← Finset.add_sum_erase keys _ present, ← Finset.add_sum_erase keys second.amount present,
    Finset.sum_congr rfl fun other member => agree other (Finset.ne_of_mem_erase member),
    add_sub_add_right_eq_sub]

theorem total_set (map : FinMap Key Amount) (key : Key) (value : Amount) :
    (map.set key value).total = map.total - map.amount key + value := by
  have difference := (map.set key value).total_sub_total map key
    fun other different => map.amount_set_of_ne value different
  rw [amount_set_self, sub_eq_iff_eq_add] at difference
  rw [difference]
  abel

theorem total_erase (map : FinMap Key Amount) (key : Key) :
    (map.erase key).total = map.total - map.amount key := by
  have difference := (map.erase key).total_sub_total map key
    fun other different => map.amount_erase_of_ne different
  rw [amount_erase_self, sub_eq_iff_eq_add] at difference
  rw [difference]
  abel

omit [DecidableEq Key] in
theorem total_eq_zero_of_unbound (map : FinMap Key Amount) (unbound : ∀ key, map.get key = none) :
    map.total = 0 := by
  rw [total, map.support_eq_empty unbound, Finset.sum_empty]

end Total

/-- With nonnegative amounts, no finite selection of keys holds more than the total. -/
theorem sum_amount_le_total (map : FinMap Key Int) (nonnegative : ∀ key, 0 ≤ map.amount key)
    (keys : Finset Key) : ∑ key ∈ keys, map.amount key ≤ map.total := by
  rw [map.total_eq_sum (Finset.subset_union_right : map.support ⊆ keys ∪ map.support)]
  exact Finset.sum_le_sum_of_subset_of_nonneg Finset.subset_union_left
    fun key _ _ => nonnegative key

end FinMap
