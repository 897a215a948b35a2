import WorkQueue.Foundation.Shuffle
import Mathlib.Algebra.BigOperators.Field
import Mathlib.Algebra.BigOperators.Intervals
import Mathlib.Data.Fintype.BigOperators
import Mathlib.Data.List.Perm.Lattice
import Mathlib.Tactic.FieldSimp
import Mathlib.Tactic.Linarith

/-! # The first eligible item of a shuffle

Items are shuffled by their weights, and the first one of the outcome that is eligible is
selected. The items that are not eligible do not matter: an eligible item is selected with the
probability that its weight has among the weights of the eligible items alone
(`Shuffle.likelihood_first`).
-/

namespace Shuffle

variable {Item : Type} (weight : Item → ℕ)

/-- The item that a number takes out of a pool, and what is left. -/
def extract (pool : List Item) (number : ℕ) : Option (Item × List Item) :=
  (locate weight pool number).bind fun position =>
    pool[position]?.map fun item => (item, swapRemove pool position)

/-- The sequences of draws whose outcome has a property. -/
def leading (pool : List Item) (holds : List Item → Prop) : Set (List ℕ) :=
  {draws | ∃ order, shuffle weight pool draws = some order ∧ holds order}

/-- The probability that the outcome has a property, when the draws are uniform. -/
noncomputable def likelihood (pool : List Item) (holds : List Item → Prop) : ℚ :=
  ∑ᶠ draws ∈ leading weight pool holds, chance (ranges weight pool draws)

variable {weight} {pool : List Item} {holds : List Item → Prop}

section Drawing

/-- Every number in the range takes out the item in whose section it falls. -/
theorem extract_eq_some {number : ℕ} (inside : number < total weight pool) :
    ∃ before item after, pool = before ++ item :: after ∧
      locate weight pool number = some before.length ∧
      extract weight pool number = some (item, swapRemove pool before.length) := by
  obtain ⟨position, found⟩ := Option.isSome_iff_exists.mp (isSome_locate inside)
  obtain ⟨before, item, after, rfl, rfl, -⟩ := locate_eq_some_iff.mp found
  refine ⟨before, item, after, rfl, found, ?_⟩
  rw [extract, found, Option.bind_some, List.getElem?_append_right le_rfl, Nat.sub_self]
  rfl

/-- The draws after the first one, when that takes out an item. -/
def after (weight : Item → ℕ) (pool : List Item) (holds : List Item → Prop) (number : ℕ) :
    Set (List ℕ) :=
  (extract weight pool number).elim ∅ fun pair =>
    leading weight pair.2 fun rest => holds (pair.1 :: rest)

/-- The first draw is any number in the range. -/
theorem leading_eq_iUnion (large : 1 < pool.length) :
    leading weight pool holds =
      ⋃ number : Fin (total weight pool),
        (fun draws => number.val :: draws) '' after weight pool holds number := by
  ext draws
  simp only [Set.mem_iUnion, Set.mem_image]
  constructor
  · rintro ⟨order, outcome, satisfied⟩
    cases draws with
    | nil =>
        obtain ⟨small, -⟩ := shuffle_nil_iff.mp outcome
        omega
    | cons number draws =>
        obtain ⟨-, before, item, rest, others, rfl, within, left, rfl⟩ :=
          shuffle_cons_iff.mp outcome
        have found : locate weight (before ++ item :: rest) number = some before.length :=
          locate_eq_some_iff.mpr ⟨before, item, rest, rfl, rfl, within⟩
        have inside : number < total weight (before ++ item :: rest) := by
          rw [total_append, total_cons]
          omega
        have taken : extract weight (before ++ item :: rest) number =
            some (item, swapRemove (before ++ item :: rest) before.length) := by
          rw [extract, found, Option.bind_some, List.getElem?_append_right le_rfl, Nat.sub_self]
          rfl
        refine ⟨⟨number, inside⟩, draws, ?_, rfl⟩
        rw [after, taken]
        exact ⟨others, left, satisfied⟩
  · rintro ⟨number, rest, member, rfl⟩
    obtain ⟨before, item, others, rfl, found, taken⟩ := extract_eq_some number.isLt
    rw [after, taken] at member
    obtain ⟨order, outcome, satisfied⟩ := member
    obtain ⟨_, _, _, split, same, within⟩ := locate_eq_some_iff.mp found
    obtain ⟨rfl, tail⟩ := List.append_inj split same.symm
    obtain ⟨rfl, rfl⟩ := List.cons.inj tail
    exact ⟨item :: order,
      shuffle_cons_iff.mpr ⟨large, before, item, others, order, rfl, within, outcome, rfl⟩,
      satisfied⟩

theorem length_swapRemove {before others : List Item} {item : Item} :
    (swapRemove (before ++ item :: others) before.length).length =
      before.length + others.length := by
  rw [(swapRemove_perm before others item).length_eq, List.length_append]

theorem leading_of_small (small : pool.length ≤ 1) [Decidable (holds pool)] :
    leading weight pool holds = if holds pool then {[]} else ∅ := by
  have only : ∀ draws order,
      shuffle weight pool draws = some order → draws = [] ∧ order = pool := by
    intro draws order outcome
    have none : draws = [] :=
      List.eq_nil_of_length_eq_zero ((length_of_shuffle outcome).trans (by omega))
    subst none
    exact ⟨rfl, (shuffle_nil_iff.mp outcome).2.symm⟩
  ext draws
  constructor
  · rintro ⟨order, outcome, satisfied⟩
    obtain ⟨rfl, rfl⟩ := only draws order outcome
    rw [if_pos satisfied]
    rfl
  · intro member
    split at member
    · next satisfied =>
        obtain rfl := Set.mem_singleton_iff.mp member
        exact ⟨pool, shuffle_nil_iff.mpr ⟨small, rfl⟩, satisfied⟩
    · exact member.elim

theorem finite_leading (pool : List Item) (holds : List Item → Prop) :
    (leading weight pool holds).Finite := by
  classical
  induction count : pool.length using Nat.strong_induction_on generalizing pool holds with
  | _ count ih =>
      by_cases large : 1 < pool.length
      · rw [leading_eq_iUnion large]
        refine Set.finite_iUnion fun number => Set.Finite.image _ ?_
        obtain ⟨before, item, others, rfl, -, taken⟩ := extract_eq_some number.isLt
        rw [after, taken]
        refine ih _ ?_ _ _ rfl
        rw [length_swapRemove, ← count]
        simp
      · rw [leading_of_small (by omega)]
        split
        · exact Set.finite_singleton _
        · exact Set.finite_empty

end Drawing

section Likelihood

theorem likelihood_of_small (small : pool.length ≤ 1) [Decidable (holds pool)] :
    likelihood weight pool holds = if holds pool then 1 else 0 := by
  rw [likelihood, leading_of_small small]
  split
  · rw [finsum_mem_singleton]
    rfl
  · exact finsum_mem_empty

/-- What follows the first draw counts in proportion to the range. -/
theorem finsum_after {number : ℕ} (inside : number < total weight pool) :
    ∑ᶠ draws ∈ (fun draws => number :: draws) '' after weight pool holds number,
        chance (ranges weight pool draws) =
      (extract weight pool number).elim 0 (fun pair =>
        likelihood weight pair.2 fun rest => holds (pair.1 :: rest)) / total weight pool := by
  obtain ⟨before, item, others, rfl, found, taken⟩ := extract_eq_some inside
  rw [finsum_mem_image fun _ _ _ _ same => (List.cons.inj same).2, after, taken]
  simp only [Option.elim_some]
  rw [likelihood, div_eq_inv_mul, mul_finsum_mem]
  refine finsum_mem_congr rfl fun draws _ => ?_
  rw [ranges, found, Option.elim_some, chance, List.map_cons, List.prod_cons, one_div]
  rfl

/-- The likelihood is the mean over the numbers in the range. -/
theorem likelihood_eq_sum (large : 1 < pool.length) :
    likelihood weight pool holds =
      (∑ number ∈ Finset.range (total weight pool),
        (extract weight pool number).elim 0 fun pair =>
          likelihood weight pair.2 fun rest => holds (pair.1 :: rest)) / total weight pool := by
  rw [likelihood, leading_eq_iUnion large, finsum_mem_iUnion, finsum_eq_sum_of_fintype,
    Finset.sum_div, ← Fin.sum_univ_eq_sum_range
      (fun number => (extract weight pool number).elim 0 (fun pair =>
        likelihood weight pair.2 fun rest => holds (pair.1 :: rest)) / (total weight pool : ℚ))]
  · exact Finset.sum_congr rfl fun number _ => finsum_after number.isLt
  · intro first second different
    rw [Function.onFun, Set.disjoint_left]
    rintro _ ⟨draws, -, rfl⟩ ⟨others, -, same⟩
    exact different (Fin.ext (List.cons.inj same).1.symm)
  · intro number
    refine Set.Finite.image _ ?_
    rw [after]
    cases extract weight pool number with
    | none => exact Set.finite_empty
    | some pair => exact finite_leading _ _

/-- As many numbers as its weight fall into the section of each item. -/
theorem sum_sections (pool : List Item) (value : ℕ → ℚ) (worth : Item → ℚ)
    (each : ∀ before item after, pool = before ++ item :: after →
      value before.length = worth item) :
    ∑ number ∈ Finset.range (total weight pool), (locate weight pool number).elim 0 value =
      (pool.map fun item => weight item * worth item).sum := by
  induction pool generalizing value with
  | nil => simp
  | cons item pool ih =>
      have first : ∀ number ∈ Finset.range (weight item),
          (locate weight (item :: pool) number).elim 0 value = worth item := by
        intro number inside
        rw [locate, if_pos (Finset.mem_range.mp inside)]
        exact each [] item pool rfl
      have later : ∀ number, (locate weight (item :: pool) (weight item + number)).elim 0 value =
          (locate weight pool number).elim 0 fun position => value (position + 1) := by
        intro number
        rw [locate, if_neg (by omega), Nat.add_sub_cancel_left]
        cases locate weight pool number <;> rfl
      rw [total_cons, Finset.sum_range_add, Finset.sum_congr rfl first, Finset.sum_const,
        Finset.card_range, nsmul_eq_mul, List.map_cons, List.sum_cons,
        Finset.sum_congr rfl fun number _ => later number,
        ih (fun position => value (position + 1))]
      intro before other after split
      exact each (item :: before) other after (by rw [split]; rfl)

/-- The likelihood from that of what is left, when that depends on the item taken out. -/
theorem likelihood_eq_of_each (large : 1 < pool.length) {worth : Item → ℚ}
    (each : ∀ before item after, pool = before ++ item :: after →
      (likelihood weight (swapRemove pool before.length) fun rest => holds (item :: rest)) =
        worth item) :
    likelihood weight pool holds =
      (pool.map fun item => weight item * worth item).sum / total weight pool := by
  rw [likelihood_eq_sum large, ← sum_sections pool
    (fun position => pool[position]?.elim 0 fun item =>
      likelihood weight (swapRemove pool position) fun rest => holds (item :: rest)) worth]
  · refine congrArg (· / (total weight pool : ℚ)) (Finset.sum_congr rfl fun number _ => ?_)
    rw [extract]
    cases locate weight pool number with
    | none => rfl
    | some position =>
        rw [Option.bind_some, Option.elim_some]
        cases pool[position]? <;> rfl
  · intro before item after split
    have here : pool[before.length]? = some item := by
      rw [split, List.getElem?_append_right le_rfl, Nat.sub_self, List.getElem?_cons_zero]
    rw [here, Option.elim_some]
    exact each before item after split

end Likelihood

section First

/-- Weights are positive. -/
theorem total_pos (positive : ∀ item ∈ pool, 0 < weight item) (filled : pool ≠ []) :
    0 < total weight pool := by
  obtain ⟨item, rest, rfl⟩ := List.exists_cons_of_ne_nil filled
  rw [total_cons]
  exact Nat.add_pos_left (positive item List.mem_cons_self) _

theorem positive_swapRemove {before others : List Item} {item : Item}
    (positive : ∀ member ∈ before ++ item :: others, 0 < weight member) :
    ∀ member ∈ swapRemove (before ++ item :: others) before.length, 0 < weight member := by
  intro member left
  refine positive member (List.perm_middle.mem_iff.mpr (List.mem_cons_of_mem _ ?_))
  exact (swapRemove_perm before others item).mem_iff.mp left

/-- Some outcome is certain. -/
theorem likelihood_of_forall (positive : ∀ item ∈ pool, 0 < weight item)
    (certain : ∀ order, holds order) : likelihood weight pool holds = 1 := by
  classical
  induction count : pool.length using Nat.strong_induction_on generalizing pool holds with
  | _ count ih =>
      by_cases large : 1 < pool.length
      · have filled : (total weight pool : ℚ) ≠ 0 :=
          Nat.cast_ne_zero.mpr (total_pos positive (List.ne_nil_of_length_pos (by omega))).ne'
        have mean : likelihood weight pool holds =
            (pool.map fun item => (weight item : ℚ) * 1).sum / total weight pool := by
          refine likelihood_eq_of_each large ?_
          rintro before item others rfl
          refine ih _ ?_ (positive_swapRemove positive) (fun rest => certain _) rfl
          rw [length_swapRemove, ← count]
          simp
        have sum : (pool.map fun item => (weight item : ℚ) * 1).sum = total weight pool := by
          simp [total, Nat.cast_list_sum, Function.comp_def]
        rw [mean, sum, div_self filled]
      · rw [likelihood_of_small (by omega), if_pos (certain pool)]

theorem likelihood_of_forall_not (impossible : ∀ order, ¬ holds order) :
    likelihood weight pool holds = 0 := by
  have empty : leading weight pool holds = ∅ :=
    Set.eq_empty_of_forall_notMem fun _ ⟨order, _, satisfied⟩ => impossible order satisfied
  rw [likelihood, empty, finsum_mem_empty]

theorem likelihood_congr {other : List Item → Prop} (same : ∀ order, holds order ↔ other order) :
    likelihood weight pool holds = likelihood weight pool other := by
  rw [show holds = other from funext fun order => propext (same order)]

variable {eligible : Item → Bool} {item : Item}

theorem total_filter_add (eligible : Item → Bool) (pool : List Item) :
    total weight (pool.filter eligible) + total weight (pool.filter fun item => !eligible item) =
      total weight pool := by
  rw [← total_append]
  exact total_perm (List.filter_append_perm eligible pool)

open Classical in
/-- How likely an item is selected after another one has been taken out, if its share among the
eligible items is given. -/
noncomputable def worth (eligible : Item → Bool) (item : Item) (share : ℚ) (taken : Item) : ℚ :=
  if eligible taken then if taken = item then 1 else 0 else share

/-- Where the item is not, only what is not eligible counts. -/
theorem sum_worth_of_notMem {share : ℚ} (absent : item ∉ pool) :
    (pool.map fun taken => weight taken * worth eligible item share taken).sum =
      total weight (pool.filter fun taken => !eligible taken) * share := by
  induction pool with
  | nil => simp
  | cons first pool ih =>
      obtain ⟨different, absent⟩ := not_or.mp (List.mem_cons.not.mp absent)
      rw [List.map_cons, List.sum_cons, ih absent, worth, List.filter_cons]
      cases eligible first with
      | true => simp [Ne.symm different]
      | false => simp [add_mul]

theorem sum_worth (distinct : pool.Nodup) (member : item ∈ pool) (able : eligible item)
    {share : ℚ} : (pool.map fun taken => weight taken * worth eligible item share taken).sum =
      weight item + total weight (pool.filter fun taken => !eligible taken) * share := by
  obtain ⟨before, others, rfl⟩ := List.append_of_mem member
  have absent := (List.nodup_cons.mp (List.nodup_middle.mp distinct)).1
  rw [List.mem_append, not_or] at absent
  rw [List.map_append, List.sum_append, List.map_cons, List.sum_cons,
    sum_worth_of_notMem absent.1, sum_worth_of_notMem absent.2, List.filter_append,
    List.filter_cons, total_append, worth, if_pos able, if_pos rfl]
  simp only [able, Bool.not_true, Bool.false_eq_true, ↓reduceIte]
  push_cast
  ring

/-- The eligible items are the same after one that is not eligible has been taken out. -/
theorem total_filter_swapRemove {before others : List Item} {taken : Item}
    (unable : eligible taken = false) :
    total weight ((swapRemove (before ++ taken :: others) before.length).filter eligible) =
      total weight ((before ++ taken :: others).filter eligible) := by
  have kept := (swapRemove_perm before others taken).filter eligible
  rw [total_perm kept, List.filter_append, List.filter_append,
    List.filter_cons_of_neg (by simpa using unable)]

/-- An eligible item is the first eligible one of the outcome with the probability that its
weight has among those of the eligible items. -/
theorem likelihood_first (distinct : pool.Nodup) (positive : ∀ item ∈ pool, 0 < weight item)
    (member : item ∈ pool) (able : eligible item) :
    (likelihood weight pool fun order => order.find? eligible = some item) =
      weight item / total weight (pool.filter eligible) := by
  classical
  induction count : pool.length using Nat.strong_induction_on generalizing pool with
  | _ count ih =>
      have among : item ∈ pool.filter eligible := List.mem_filter.mpr ⟨member, able⟩
      have filled : (total weight (pool.filter eligible) : ℚ) ≠ 0 :=
        Nat.cast_ne_zero.mpr (total_pos
          (fun other listed => positive other (List.mem_filter.mp listed).1)
          (List.ne_nil_of_mem among)).ne'
      by_cases large : 1 < pool.length
      · -- The first draw takes out an eligible item, which decides, or leaves the question to
        -- the rest of the pool with the same eligible items.
        have mean : (likelihood weight pool fun order => order.find? eligible = some item) =
            (pool.map fun taken => weight taken * worth eligible item
              (weight item / total weight (pool.filter eligible)) taken).sum /
                total weight pool := by
          refine likelihood_eq_of_each large ?_
          rintro before taken others rfl
          have kept := positive_swapRemove positive
          rw [worth]
          by_cases decides : eligible taken
          · rw [if_pos decides]
            split
            · next same =>
                exact likelihood_of_forall kept fun rest => by
                  rw [List.find?_cons_of_pos decides, same]
            · next different =>
                refine likelihood_of_forall_not fun rest => ?_
                rw [List.find?_cons_of_pos decides, Option.some.injEq]
                exact different
          · have unable : eligible taken = false := by simpa using decides
            have left : item ∈ swapRemove (before ++ taken :: others) before.length := by
              refine (swapRemove_perm before others taken).mem_iff.mpr ?_
              rcases List.mem_cons.mp (List.perm_middle.mem_iff.mp member) with rfl | rest
              · exact absurd able decides
              · exact rest
            have separate := (swapRemove_perm before others taken).symm.nodup
              (List.nodup_cons.mp (List.nodup_middle.mp distinct)).2
            rw [if_neg decides, likelihood_congr fun rest => by
                rw [List.find?_cons_of_neg decides],
              ih _ ?_ separate kept left rfl, total_filter_swapRemove unable]
            rw [length_swapRemove, ← count]
            simp
        have whole : (total weight pool : ℚ) ≠ 0 :=
          Nat.cast_ne_zero.mpr (total_pos positive (List.ne_nil_of_mem member)).ne'
        have parts : (total weight pool : ℚ) = total weight (pool.filter eligible) +
            total weight (pool.filter fun taken => !eligible taken) := by
          rw [← total_filter_add eligible pool]
          push_cast
          rfl
        rw [mean, sum_worth distinct member able, parts]
        rw [parts] at whole
        field_simp
      · obtain ⟨first, rfl⟩ : ∃ first, pool = [first] := List.length_eq_one_iff.mp
          (by have := List.length_pos_of_mem member; omega)
        obtain rfl := List.mem_singleton.mp member
        rw [likelihood_of_small (by simp), if_pos (by simp [able])]
        rw [List.filter_cons_of_pos able, List.filter_nil] at filled ⊢
        rw [total_cons, total_nil, Nat.add_zero] at filled ⊢
        rw [div_self filled]

end First

end Shuffle
