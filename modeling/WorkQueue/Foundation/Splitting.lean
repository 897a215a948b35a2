import Mathlib.Data.List.Basic

/-! # Splitting at separators

The parts of a list between its separators hold no separator
(`Splitting.not_separator_of_mem`), and each of them is left of the list when the other
elements are taken out (`Splitting.sublist_of_mem`). The last separator determines what is
before and behind it (`Splitting.eq_of_last_separator`), and so does the first.
-/

namespace Splitting

variable {α : Type} {isSep : α → Bool} {xs part : List α}

/-- No part holds a separator. -/
theorem not_separator_of_mem (member : part ∈ xs.splitOnP isSep) :
    ∀ x ∈ part, isSep x = false := by
  induction xs generalizing part with
  | nil =>
      obtain rfl := List.mem_singleton.mp member
      exact fun x inside => (List.not_mem_nil inside).elim
  | cons first xs ih =>
      rw [List.splitOnP_cons_eq_if_modifyHead] at member
      split at member
      · rcases List.mem_cons.mp member with rfl | later
        · exact fun x inside => (List.not_mem_nil inside).elim
        · exact ih later
      · next plain =>
          obtain ⟨head, rest, parts⟩ := List.exists_cons_of_ne_nil (List.splitOnP_ne_nil isSep xs)
          rw [parts] at member ih
          rcases List.mem_cons.mp member with rfl | later
          · refine List.forall_mem_cons.mpr ⟨Bool.eq_false_iff.mpr plain, ?_⟩
            exact ih List.mem_cons_self
          · exact ih (List.mem_cons_of_mem _ later)

/-- A part is what is left of the list without other elements. -/
theorem sublist_of_mem (member : part ∈ xs.splitOnP isSep) : part.Sublist xs := by
  induction xs generalizing part with
  | nil =>
      obtain rfl := List.mem_singleton.mp member
      exact .refl _
  | cons first xs ih =>
      rw [List.splitOnP_cons_eq_if_modifyHead] at member
      split at member
      · rcases List.mem_cons.mp member with rfl | later
        · exact List.nil_sublist _
        · exact (ih later).cons first
      · obtain ⟨head, rest, parts⟩ := List.exists_cons_of_ne_nil (List.splitOnP_ne_nil isSep xs)
        rw [parts] at member ih
        rcases List.mem_cons.mp member with rfl | later
        · exact (ih List.mem_cons_self).cons_cons first
        · exact (ih (List.mem_cons_of_mem _ later)).cons first

/-- The last separator divides a list in one way only. -/
theorem eq_of_last_separator {separator : α} {front other part rest : List α}
    (plain : separator ∉ part) (plain' : separator ∉ rest)
    (same : front ++ separator :: part = other ++ separator :: rest) :
    front = other ∧ part = rest := by
  rcases List.append_eq_append_iff.mp same with ⟨gap, longer, tails⟩ | ⟨gap, longer, tails⟩
  · cases gap with
    | nil => exact ⟨by rw [longer, List.append_nil], (List.cons.inj tails).2⟩
    | cons first gap =>
        refine (plain ?_).elim
        rw [(List.cons.inj tails).2]
        exact List.mem_append_right _ List.mem_cons_self
  · cases gap with
    | nil => exact ⟨by rw [longer, List.append_nil], (List.cons.inj tails).2.symm⟩
    | cons first gap =>
        refine (plain' ?_).elim
        rw [(List.cons.inj tails).2]
        exact List.mem_append_right _ List.mem_cons_self

/-- The first separator divides a list in one way only. -/
theorem eq_of_first_separator {separator : α} {front other part rest : List α}
    (plain : separator ∉ front) (plain' : separator ∉ other)
    (same : front ++ separator :: part = other ++ separator :: rest) :
    front = other ∧ part = rest := by
  have reversed := congrArg List.reverse same
  simp only [List.reverse_append, List.reverse_cons, List.append_assoc,
    List.singleton_append] at reversed
  obtain ⟨parts, fronts⟩ := eq_of_last_separator (List.mem_reverse.not.mpr plain)
    (List.mem_reverse.not.mpr plain') reversed
  exact ⟨List.reverse_injective fronts, List.reverse_injective parts⟩

end Splitting
