import Mathlib.Algebra.BigOperators.Group.List.Basic
import Mathlib.Algebra.Group.Pi.Basic
import Mathlib.Algebra.Order.Group.Multiset

/-! # One item in one of many places

Every place holds a multiset of items, so that all contents are added place by place. The
item is alone when the places together hold at most that one (`Sole`), and an operation
that takes an item out of contents that hold at most one leaves nothing behind
(`Sole.take`).
-/

variable {Place Item : Type}

/-- The contents of a list without an entry, and what the entry adds to them. -/
theorem List.exists_sum_set {Total : Type} [AddCommMonoid Total] {items : List Item} {index : ℕ}
    {old : Item} (present : items[index]? = some old) (new : Item) (value : Item → Total) :
    ∃ rest, (items.map value).sum = rest + value old ∧
      ((items.set index new).map value).sum = rest + value new := by
  induction items generalizing index with
  | nil => cases present
  | cons item items ih =>
      cases index with
      | zero =>
          obtain rfl := Option.some.inj present
          refine ⟨(items.map value).sum, ?_, ?_⟩
          · rw [List.map_cons, List.sum_cons, add_comm]
          · rw [List.set_cons_zero, List.map_cons, List.sum_cons, add_comm]
      | succ index =>
          obtain ⟨rest, before, after⟩ := ih present
          refine ⟨value item + rest, ?_, ?_⟩
          · rw [List.map_cons, List.sum_cons, before, add_assoc]
          · rw [List.set_cons_succ, List.map_cons, List.sum_cons, after, add_assoc]

/-- An item of the contents of a list is one of the contents of an entry. -/
theorem List.mem_sum_map {Entry : Type} {entries : List Entry} {value : Entry → Multiset Item}
    {item : Item} : item ∈ (entries.map value).sum ↔ ∃ entry ∈ entries, item ∈ value entry := by
  induction entries with
  | nil => simp
  | cons entry entries ih => simp [ih]

section Places

variable [DecidableEq Place] {before after : Place → Multiset Item} {place source target : Place}
  {added removed : Multiset Item}

/-- Contents that grow in one place. -/
theorem eq_add_single (more : after place = before place + added)
    (others : ∀ other, other ≠ place → after other = before other) :
    after = before + Pi.single place added := by
  funext other
  by_cases same : other = place
  · subst same
    rw [Pi.add_apply, Pi.single_eq_same, more]
  · rw [Pi.add_apply, Pi.single_eq_of_ne same, add_zero, others other same]

/-- Contents that shrink in one place and grow in another. -/
theorem exists_rest_single (different : source ≠ target)
    (fewer : before source = after source + removed)
    (more : after target = before target + added)
    (others : ∀ other, other ≠ source → other ≠ target → after other = before other) :
    ∃ rest : Place → Multiset Item,
      before = rest + Pi.single source removed ∧ after = rest + Pi.single target added := by
  refine ⟨Function.update before source (after source), eq_add_single ?_ ?_, eq_add_single ?_ ?_⟩
  · rw [Function.update_self, fewer]
  · intro other apart
    rw [Function.update_of_ne apart]
  · rw [Function.update_of_ne (Ne.symm different), more]
  · intro other apart
    by_cases same : other = source
    · rw [same, Function.update_self]
    · rw [Function.update_of_ne same, others other same apart]

/-- The places hold at most one item, and that one is good. -/
def Sole (contents : Place → Multiset Item) (good : Item → Prop) : Prop :=
  contents = 0 ∨ ∃ place item, good item ∧ contents = Pi.single place {item}

namespace Sole

variable {contents rest : Place → Multiset Item} {good better : Item → Prop} {item : Item}

theorem single (place : Place) (holds : good item) : Sole (Pi.single place {item}) good :=
  .inr ⟨place, item, holds, rfl⟩

theorem mono (sole : Sole contents good)
    (weaker : ∀ place, ∀ item ∈ contents place, good item → better item) :
    Sole contents better := by
  rcases sole with empty | ⟨place, item, holds, only⟩
  · exact .inl empty
  · refine .inr ⟨place, item, weaker place item ?_ holds, only⟩
    rw [only, Pi.single_eq_same]
    exact Multiset.mem_singleton_self item

/-- Every item that is somewhere is good. -/
theorem good_of_mem (sole : Sole contents good) (member : item ∈ contents place) : good item := by
  rcases sole with empty | ⟨only, other, holds, alone⟩
  · rw [empty] at member
    exact (Multiset.notMem_zero item member).elim
  · rw [alone] at member
    by_cases same : place = only
    · rw [same, Pi.single_eq_same, Multiset.mem_singleton] at member
      exact member ▸ holds
    · rw [Pi.single_eq_of_ne same] at member
      exact (Multiset.notMem_zero item member).elim

/-- An item that can be taken out is good, and nothing is left. -/
theorem take (sole : Sole contents good) (split : contents = rest + Pi.single place {item}) :
    rest = 0 ∧ good item := by
  have here : contents place = rest place + {item} := by
    rw [split, Pi.add_apply, Pi.single_eq_same]
  have counted := congrArg Multiset.card here
  rw [Multiset.card_add, Multiset.card_singleton] at counted
  rcases sole with empty | ⟨only, other, holds, alone⟩
  · simp [empty] at counted
  · by_cases same : place = only
    · subst same
      have nothing : rest place = 0 := by simpa [alone] using counted
      rw [nothing, zero_add, alone, Pi.single_eq_same, Multiset.singleton_inj] at here
      refine ⟨?_, here ▸ holds⟩
      funext elsewhere
      by_cases same : elsewhere = place
      · rw [same, nothing, Pi.zero_apply]
      · have apart := congrFun split elsewhere
        rw [alone, Pi.add_apply, Pi.single_eq_of_ne same, Pi.single_eq_of_ne same,
          add_zero] at apart
        exact apart.symm
    · simp [alone, Pi.single_eq_of_ne same] at counted

/-- Two places together hold at most one item. -/
theorem card_add_card_le (sole : Sole contents good) (different : source ≠ target) :
    (contents source).card + (contents target).card ≤ 1 := by
  rcases sole with empty | ⟨place, item, _, alone⟩
  · simp [empty]
  · rw [alone]
    by_cases first : source = place
    · rw [first, Pi.single_eq_same,
        Pi.single_eq_of_ne fun second => different (first.trans second.symm)]
      simp
    · rw [Pi.single_eq_of_ne first]
      by_cases second : target = place
      · rw [second, Pi.single_eq_same]
        simp
      · rw [Pi.single_eq_of_ne second]
        simp

end Sole

end Places
