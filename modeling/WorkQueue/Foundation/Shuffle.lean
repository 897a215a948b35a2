import Mathlib.Algebra.BigOperators.Finprod
import Mathlib.Algebra.BigOperators.Group.List.Lemmas
import Mathlib.Algebra.Order.BigOperators.Group.List
import Mathlib.Algebra.Order.Field.Rat
import Mathlib.Data.List.Perm.Basic
import Mathlib.Data.Set.Card
import Mathlib.Order.Interval.Set.Nat
import Mathlib.Tactic.Ring

/-! # Shuffling by weights

The weights of a pool of items divide a range of numbers into one section for each item. A
number that is drawn from the range takes the item in whose section it falls out of the pool,
and so on until one item is left. Every ordering of the items is the outcome of as many
sequences of draws as the product of the weights of all items but the last
(`Shuffle.ncard_shuffle`), and all these sequences are drawn from the same ranges
(`Shuffle.ranges_of_shuffle`). Hence uniform draws give every ordering the probability that it
has for sampling without replacement (`Shuffle.withoutReplacement_eq`).
-/

namespace Shuffle

variable {Item : Type} (weight : Item → ℕ)

/-- The weight of a pool. -/
def total (pool : List Item) : ℕ := (pool.map weight).sum

/-- The position of the item in whose section a number falls. -/
def locate : List Item → ℕ → Option ℕ
  | [], _ => none
  | item :: pool, number =>
      if number < weight item then some 0
      else (locate pool (number - weight item)).map (· + 1)

/-- Take out the item at a position and put the last one in its place. -/
def swapRemove (pool : List Item) (position : ℕ) : List Item :=
  match pool.getLast? with
  | none => []
  | some last => (pool.set position last).dropLast

/-- Take out the items that the draws select, until one is left. -/
def shuffle : List Item → List ℕ → Option (List Item)
  | pool, [] => if pool.length ≤ 1 then some pool else none
  | pool, number :: draws =>
      if pool.length ≤ 1 then none
      else
        (locate weight pool number).bind fun position =>
          pool[position]?.bind fun item =>
            (shuffle (swapRemove pool position) draws).map (item :: ·)

/-- The ranges from which the numbers are drawn. -/
def ranges : List Item → List ℕ → List ℕ
  | _, [] => []
  | pool, number :: draws =>
      total weight pool ::
        ((locate weight pool number).elim [] fun position =>
          ranges (swapRemove pool position) draws)

/-- The weights of an ordering from each item on, except for the last item. -/
def tailTotals : List Item → List ℕ
  | [] => []
  | [_] => []
  | item :: next :: order => total weight (item :: next :: order) :: tailTotals (next :: order)

/-- The probability of one sequence of uniform draws from some ranges. -/
def chance (ranges : List ℕ) : ℚ := (ranges.map fun range : ℕ => 1 / (range : ℚ)).prod

/-- The probability of an ordering when items are sampled without replacement: the next item
is one of those that are left, each in proportion to its weight. -/
def withoutReplacement : List Item → ℚ
  | [] => 1
  | [_] => 1
  | item :: next :: order =>
      weight item / total weight (item :: next :: order) * withoutReplacement (next :: order)

section Pool

variable {weight}

@[simp] theorem total_nil : total weight [] = 0 := rfl

@[simp] theorem total_cons (item : Item) (pool : List Item) :
    total weight (item :: pool) = weight item + total weight pool := by
  rw [total, List.map_cons, List.sum_cons, total]

@[simp] theorem total_append (first second : List Item) :
    total weight (first ++ second) = total weight first + total weight second := by
  rw [total, List.map_append, List.sum_append, total, total]

theorem total_perm {pool other : List Item} (same : pool.Perm other) :
    total weight pool = total weight other := (same.map weight).sum_eq

theorem total_reverse (pool : List Item) : total weight pool.reverse = total weight pool :=
  total_perm pool.reverse_perm

/-- A number selects the position in whose section it falls. -/
theorem locate_eq_some_iff {pool : List Item} {number position : ℕ} :
    locate weight pool number = some position ↔
      ∃ before item after, pool = before ++ item :: after ∧ before.length = position ∧
        total weight before ≤ number ∧ number < total weight before + weight item := by
  induction pool generalizing number position with
  | nil => simp [locate]
  | cons head pool ih =>
      unfold locate
      split
      · next inside =>
          constructor
          · intro found
            obtain rfl := Option.some.inj found
            exact ⟨[], head, pool, rfl, rfl, by simp, by simpa using inside⟩
          · rintro ⟨before, item, after, split, rfl, above, -⟩
            cases before with
            | nil => rfl
            | cons first before =>
                obtain ⟨rfl, -⟩ := List.cons.inj split
                rw [total_cons] at above
                omega
      · next outside =>
          rw [Option.map_eq_some_iff]
          constructor
          · rintro ⟨index, found, rfl⟩
            obtain ⟨before, item, after, rfl, rfl, above, below⟩ := ih.mp found
            refine ⟨head :: before, item, after, rfl, rfl, ?_, ?_⟩ <;> rw [total_cons] <;> omega
          · rintro ⟨before, item, after, split, rfl, above, below⟩
            cases before with
            | nil =>
                obtain ⟨rfl, -⟩ := List.cons.inj split
                rw [total_nil] at below
                omega
            | cons first before =>
                obtain ⟨rfl, rfl⟩ := List.cons.inj split
                rw [total_cons] at above below
                exact ⟨before.length, ih.mpr ⟨before, item, after, rfl, rfl, by omega, by omega⟩,
                  rfl⟩

/-- Every number in the range selects an item. -/
theorem isSome_locate {pool : List Item} {number : ℕ} (inside : number < total weight pool) :
    (locate weight pool number).isSome := by
  induction pool generalizing number with
  | nil => exact absurd inside (Nat.not_lt_zero _)
  | cons head pool ih =>
      unfold locate
      split
      · rfl
      · rw [total_cons] at inside
        rw [Option.isSome_map]
        exact ih (by omega)

theorem swapRemove_last (before : List Item) (item : Item) :
    swapRemove (before ++ [item]) before.length = before := by
  simp [swapRemove]

theorem swapRemove_inner (before after : List Item) (item last : Item) :
    swapRemove (before ++ item :: (after ++ [last])) before.length = before ++ last :: after := by
  have shape : before ++ item :: (after ++ [last]) = (before ++ item :: after) ++ [last] := by simp
  have replaced : (before ++ item :: after ++ [last]).set before.length last =
      before ++ last :: after ++ [last] := by simp
  unfold swapRemove
  rw [shape, List.getLast?_concat]
  dsimp only
  rw [replaced, List.dropLast_concat]

/-- What is left is the pool without the item. -/
theorem swapRemove_perm (before after : List Item) (item : Item) :
    (swapRemove (before ++ item :: after) before.length).Perm (before ++ after) := by
  rcases List.eq_nil_or_concat after with rfl | ⟨after, last, rfl⟩
  · rw [swapRemove_last, List.append_nil]
  · rw [List.concat_eq_append, swapRemove_inner]
    exact (List.perm_append_singleton last after).symm.append_left before

end Pool

section Outcomes

variable {weight}

theorem shuffle_nil_iff {pool order : List Item} :
    shuffle weight pool [] = some order ↔ pool.length ≤ 1 ∧ pool = order := by
  unfold shuffle
  split
  · next small => simp [small]
  · next large => simp [large]

/-- The first draw selects the first item of the outcome, the others the rest of it. -/
theorem shuffle_cons_iff {pool order : List Item} {number : ℕ} {draws : List ℕ} :
    shuffle weight pool (number :: draws) = some order ↔
      1 < pool.length ∧ ∃ before item after rest, pool = before ++ item :: after ∧
        (total weight before ≤ number ∧ number < total weight before + weight item) ∧
        shuffle weight (swapRemove pool before.length) draws = some rest ∧
        order = item :: rest := by
  rw [shuffle]
  split
  · next small =>
      constructor
      · intro none
        cases none
      · rintro ⟨large, -⟩
        omega
  · next large =>
      rw [Option.bind_eq_some_iff]
      constructor
      · rintro ⟨position, found, selected⟩
        obtain ⟨before, item, after, rfl, rfl, within⟩ := locate_eq_some_iff.mp found
        rw [List.getElem?_append_right le_rfl, Nat.sub_self, List.getElem?_cons_zero,
          Option.bind_some, Option.map_eq_some_iff] at selected
        obtain ⟨rest, left, rfl⟩ := selected
        exact ⟨by omega, before, item, after, rest, rfl, within, left, rfl⟩
      · rintro ⟨-, before, item, after, rest, rfl, within, left, rfl⟩
        refine ⟨before.length, locate_eq_some_iff.mpr ⟨before, item, after, rfl, rfl, within⟩, ?_⟩
        simp [left]

/-- A number in the section of an item takes it out. -/
theorem shuffle_cons_of_section {before after : List Item} {item : Item} {number : ℕ}
    (draws : List ℕ) (large : 1 < (before ++ item :: after).length)
    (above : total weight before ≤ number) (below : number < total weight before + weight item) :
    shuffle weight (before ++ item :: after) (number :: draws) =
      (shuffle weight (swapRemove (before ++ item :: after) before.length) draws).map
        (item :: ·) := by
  have found : locate weight (before ++ item :: after) number = some before.length :=
    locate_eq_some_iff.mpr ⟨before, item, after, rfl, rfl, above, below⟩
  rw [shuffle, if_neg (by omega), found, Option.bind_some,
    List.getElem?_append_right le_rfl, Nat.sub_self, List.getElem?_cons_zero, Option.bind_some]

/-- Nothing is taken out of a pool of at most one item, or by a number outside its range. -/
theorem shuffle_cons_eq_none {pool : List Item} {number : ℕ} (draws : List ℕ)
    (refused : ¬ (1 < pool.length ∧ number < total weight pool)) :
    shuffle weight pool (number :: draws) = none := by
  refine Option.eq_none_iff_forall_ne_some.mpr fun order outcome => ?_
  obtain ⟨large, before, item, after, rest, rfl, within, -⟩ := shuffle_cons_iff.mp outcome
  refine refused ⟨large, ?_⟩
  rw [total_append, total_cons]
  omega

/-- The outcome is an ordering of the pool. -/
theorem perm_of_shuffle {pool order : List Item} {draws : List ℕ}
    (outcome : shuffle weight pool draws = some order) : order.Perm pool := by
  induction draws generalizing pool order with
  | nil =>
      obtain ⟨-, rfl⟩ := shuffle_nil_iff.mp outcome
      rfl
  | cons number draws ih =>
      obtain ⟨-, before, item, after, rest, rfl, -, left, rfl⟩ := shuffle_cons_iff.mp outcome
      have others := (ih left).trans (swapRemove_perm before after item)
      exact (others.cons item).trans List.perm_middle.symm

/-- One draw for every item but the last. -/
theorem length_of_shuffle {pool order : List Item} {draws : List ℕ}
    (outcome : shuffle weight pool draws = some order) : draws.length = pool.length - 1 := by
  induction draws generalizing pool order with
  | nil =>
      obtain ⟨small, -⟩ := shuffle_nil_iff.mp outcome
      rw [List.length_nil]
      omega
  | cons number draws ih =>
      obtain ⟨large, before, item, after, rest, rfl, -, left, rfl⟩ := shuffle_cons_iff.mp outcome
      have smaller := (swapRemove_perm before after item).length_eq
      have others := ih left
      simp only [List.length_append, List.length_cons] at large smaller others ⊢
      omega

/-- The draws lie in their ranges. -/
theorem lt_total_of_shuffle {pool order : List Item} {draws : List ℕ}
    (outcome : shuffle weight pool draws = some order) :
    ∀ number ∈ draws, number < total weight pool := by
  induction draws generalizing pool order with
  | nil => simp
  | cons number draws ih =>
      obtain ⟨-, before, item, after, rest, rfl, within, left, -⟩ := shuffle_cons_iff.mp outcome
      have smaller : total weight (swapRemove (before ++ item :: after) before.length) =
          total weight (before ++ after) := total_perm (swapRemove_perm before after item)
      rintro other member
      rw [total_append, total_cons]
      rcases List.mem_cons.mp member with rfl | later
      · omega
      · have below := ih left other later
        rw [smaller, total_append] at below
        omega

/-- The ranges of the draws are determined by the outcome. -/
theorem ranges_of_shuffle {pool order : List Item} {draws : List ℕ}
    (outcome : shuffle weight pool draws = some order) :
    ranges weight pool draws = tailTotals weight order := by
  induction draws generalizing pool order with
  | nil =>
      obtain ⟨small, rfl⟩ := shuffle_nil_iff.mp outcome
      match pool, small with
      | [], _ => rfl
      | [_], _ => rfl
  | cons number draws ih =>
      have whole : total weight order = total weight pool := total_perm (perm_of_shuffle outcome)
      obtain ⟨large, before, item, after, rest, rfl, within, left, rfl⟩ :=
        shuffle_cons_iff.mp outcome
      have found : locate weight (before ++ item :: after) number = some before.length :=
        locate_eq_some_iff.mpr ⟨before, item, after, rfl, rfl, within⟩
      have others := (perm_of_shuffle left).length_eq.trans
        (swapRemove_perm before after item).length_eq
      rw [ranges, found, Option.elim_some, ih left, ← whole]
      cases rest with
      | nil =>
          simp only [List.length_append, List.length_cons, List.length_nil] at large others
          omega
      | cons next rest => rfl

/-- The sequences of draws for an ordering: a number in the section of its first item, and a
sequence for the rest. -/
theorem setOf_shuffle_cons {before after order : List Item} {item : Item}
    (distinct : (before ++ item :: after).Nodup) (large : 1 < (before ++ item :: after).length) :
    {draws | shuffle weight (before ++ item :: after) draws = some (item :: order)} =
      (fun pair : ℕ × List ℕ => pair.1 :: pair.2) ''
        (Set.Ico (total weight before) (total weight before + weight item) ×ˢ
          {draws | shuffle weight (swapRemove (before ++ item :: after) before.length) draws =
            some order}) := by
  ext draws
  constructor
  · intro outcome
    cases draws with
    | nil =>
        obtain ⟨small, -⟩ := shuffle_nil_iff.mp outcome
        omega
    | cons number draws =>
        obtain ⟨-, before', item', after', rest, split, within, left, same⟩ :=
          shuffle_cons_iff.mp outcome
        obtain ⟨rfl, rfl⟩ := List.cons.inj same
        have absent := (List.nodup_cons.mp (List.nodup_middle.mp distinct)).1
        rw [List.mem_append, not_or] at absent
        obtain ⟨rfl, -⟩ := (List.append_cons_inj_of_notMem absent.1 absent.2).mp split
        exact ⟨(number, draws), ⟨within, left⟩, rfl⟩
  · rintro ⟨⟨number, draws⟩, ⟨within, left⟩, rfl⟩
    exact shuffle_cons_iff.mpr ⟨large, before, item, after, order, rfl, within, left, rfl⟩

theorem setOf_shuffle_of_small {pool : List Item} (small : pool.length ≤ 1) :
    {draws | shuffle weight pool draws = some pool} = {[]} := by
  ext draws
  constructor
  · intro outcome
    exact List.eq_nil_of_length_eq_zero ((length_of_shuffle outcome).trans (by omega))
  · rintro rfl
    exact shuffle_nil_iff.mpr ⟨small, rfl⟩

theorem injective_cons : Function.Injective fun pair : ℕ × List ℕ => pair.1 :: pair.2 := by
  rintro ⟨number, draws⟩ ⟨other, others⟩ same
  obtain ⟨rfl, rfl⟩ := List.cons.inj same
  rfl

/-- An ordering of distinct items is the outcome of as many sequences of draws as the product
of the weights of all its items but the last. -/
theorem ncard_shuffle {pool order : List Item} (distinct : pool.Nodup) (same : order.Perm pool) :
    {draws | shuffle weight pool draws = some order}.ncard =
      (order.dropLast.map weight).prod := by
  induction order generalizing pool with
  | nil =>
      obtain rfl := same.nil_eq
      rw [setOf_shuffle_of_small (by simp), Set.ncard_singleton]
      rfl
  | cons item order ih =>
      cases order with
      | nil =>
          obtain rfl := List.perm_singleton.mp same.symm
          rw [setOf_shuffle_of_small (by simp), Set.ncard_singleton]
          rfl
      | cons next order =>
          obtain ⟨before, after, rfl⟩ := List.append_of_mem (same.mem_iff.mp List.mem_cons_self)
          have rest := (same.trans List.perm_middle).cons_inv.trans
            (swapRemove_perm before after item).symm
          have others := ih (rest.nodup (List.nodup_cons.mp (same.symm.nodup distinct)).2) rest
          have large : 1 < (before ++ item :: after).length := by
            rw [← same.length_eq]
            simp
          rw [setOf_shuffle_cons distinct large, Set.ncard_image_of_injective _ injective_cons,
            Set.ncard_prod, others, Set.ncard_eq_toFinset_card', Set.toFinset_Ico, Nat.card_Ico,
            Nat.add_sub_cancel_left]
          rfl

theorem withoutReplacement_eq (order : List Item) :
    withoutReplacement weight order =
      (order.dropLast.map weight).prod * chance (tailTotals weight order) := by
  induction order with
  | nil => simp [withoutReplacement, tailTotals, chance]
  | cons item order ih =>
      cases order with
      | nil => simp [withoutReplacement, tailTotals, chance]
      | cons next order =>
          rw [withoutReplacement, tailTotals, ih, List.dropLast_cons_cons, List.map_cons,
            List.prod_cons, Nat.cast_mul, chance, chance, List.map_cons, List.prod_cons]
          ring

/-- A sum of equal terms. -/
theorem finsum_mem_eq_ncard_mul {Draws : Type} {outcomes : Set Draws} {weights : Draws → ℚ}
    {value : ℚ} (finite : outcomes.Finite) (equal : ∀ draws ∈ outcomes, weights draws = value) :
    ∑ᶠ draws ∈ outcomes, weights draws = outcomes.ncard * value := by
  rw [finsum_mem_congr rfl equal, finsum_mem_eq_finite_toFinset_sum _ finite, Finset.sum_const,
    Set.ncard_eq_toFinset_card _ finite, nsmul_eq_mul]

end Outcomes

end Shuffle
