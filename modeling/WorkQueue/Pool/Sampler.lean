import WorkQueue.Foundation.Shuffle
import WorkQueue.Pool.Worker

/-! # The priority sampler

A worker orders its job types at random before each fetch. The sampler does so in place: the
items in front are chosen already, the others are scanned from the end until the running sum of
their priorities exceeds a random number, and the item found changes places with the first of
the others. This is a shuffle by weights of the items that are left, in the order of the scan
(`PrioritySampler.Loop.outcome_eq`).
-/

/-- An item of a sampler. The payload stands for the keys of a job type. -/
structure SampleItem (Payload : Type) where
  priority : UInt64
  payload : Payload
  deriving DecidableEq

/-- The item with another payload. -/
def SampleItem.map {Payload Other : Type} (change : Payload → Other)
    (item : SampleItem Payload) : SampleItem Other where
  priority := item.priority
  payload := change item.payload

/-- A sampler with the sum of the priorities of its items. -/
structure PrioritySampler (Payload : Type) where
  sum : UInt64 := 0
  samples : List (SampleItem Payload) := []
  deriving DecidableEq

namespace PrioritySampler

open Shuffle

variable {Payload Other : Type}

/-- Add an item. -/
def add (s : PrioritySampler Payload) (priority : UInt64) (payload : Payload) :
    PrioritySampler Payload where
  sum := s.sum + priority
  samples := s.samples ++ [{ priority, payload }]

/-- A sampler to which some items are added. -/
def addAll (items : List (SampleItem Payload)) : PrioritySampler Payload :=
  items.foldl (fun s item => s.add item.priority item.payload) {}

/-- Scan the items backwards from an index down to `lastValidIdx` for the one in whose part of
the continuum the random number falls. -/
def scan (samples : List (SampleItem Payload)) (rn : UInt64) (lastValidIdx : ℕ) :
    ℕ → UInt64 → Option (ℕ × SampleItem Payload)
  | 0, _ => none
  | i + 1, prevSum =>
      if i < lastValidIdx then none
      else
        match samples[i]? with
        | none => none
        | some sample =>
            if rn < sample.priority + prevSum then some (i, sample)
            else scan samples rn lastValidIdx i (prevSum + sample.priority)

/-- Exchange two elements. -/
def swap {Element : Type} (elements : List Element) (i j : ℕ) : List Element :=
  match elements[i]?, elements[j]? with
  | some first, some second => (elements.set i second).set j first
  | _, _ => elements

/-- The variables of the loop of `sample`. -/
structure Loop (Payload : Type) where
  samples : List (SampleItem Payload)
  remaining : ℕ
  sumRemaining : UInt64
  lastValidIdx : ℕ

namespace Loop

/-- The variables before the loop. -/
def start (s : PrioritySampler Payload) : Loop Payload where
  samples := s.samples
  remaining := s.samples.length
  sumRemaining := s.sum
  lastValidIdx := 0

/-- What the scan of an iteration finds. -/
def found (loop : Loop Payload) (rn : UInt64) : Option (ℕ × SampleItem Payload) :=
  scan loop.samples rn loop.lastValidIdx loop.samples.length 0

/-- One iteration of the loop for a random number. -/
def pass (loop : Loop Payload) (rn : UInt64) : Loop Payload :=
  match loop.found rn with
  | some (i, sample) =>
      { samples := swap loop.samples i loop.lastValidIdx
        remaining := loop.remaining - 1
        sumRemaining := loop.sumRemaining - sample.priority
        lastValidIdx := loop.lastValidIdx + 1 }
  | none =>
      { loop with
        remaining := loop.remaining - 1
        lastValidIdx := loop.lastValidIdx + 1 }

/-- Iterations of the loop. A random number is below the argument of its draw, and there is
none if the argument is zero. -/
def run : Loop Payload → List UInt64 → Option (Loop Payload)
  | loop, [] => some loop
  | loop, rn :: draws =>
      if 1 < loop.remaining ∧ rn < loop.sumRemaining then (loop.pass rn).run draws else none

/-- The arguments of the draws. -/
def arguments : Loop Payload → List UInt64 → List UInt64
  | _, [] => []
  | loop, rn :: draws => loop.sumRemaining :: (loop.pass rn).arguments draws

/-- The items when the loop has ended. -/
def outcome (loop : Loop Payload) (draws : List UInt64) : Option (List (SampleItem Payload)) :=
  (loop.run draws).bind fun last => if 1 < last.remaining then none else some last.samples

end Loop

/-- Order the items at random. -/
def sample (s : PrioritySampler Payload) (draws : List UInt64) : Option (PrioritySampler Payload) :=
  ((Loop.start s).outcome draws).map fun samples => { s with samples }

/-- The weight of an item. -/
def weight (item : SampleItem Payload) : ℕ := item.priority.toNat

section Adding

theorem foldl_add (items : List (SampleItem Payload)) (s : PrioritySampler Payload) :
    items.foldl (fun s item => s.add item.priority item.payload) s =
      { sum := items.foldl (fun sum item => sum + item.priority) s.sum
        samples := s.samples ++ items } := by
  induction items generalizing s with
  | nil => simp
  | cons item items ih =>
      rw [List.foldl_cons, ih, add]
      simp

@[simp] theorem samples_addAll (items : List (SampleItem Payload)) :
    (addAll items).samples = items := by
  rw [addAll, foldl_add, List.nil_append]

theorem toNat_foldl {items : List (SampleItem Payload)} {sum : UInt64}
    (fits : sum.toNat + total weight items < 2 ^ 64) :
    (items.foldl (fun sum item => sum + item.priority) sum).toNat =
      sum.toNat + total weight items := by
  induction items generalizing sum with
  | nil => rfl
  | cons item items ih =>
      rw [total_cons, ← Nat.add_assoc] at fits ⊢
      have added : (sum + item.priority).toNat = sum.toNat + weight item := by
        rw [UInt64.toNat_add]
        exact Nat.mod_eq_of_lt (Nat.lt_of_le_of_lt (Nat.le_add_right _ _) fits)
      rw [List.foldl_cons, ih (added ▸ fits), added]

theorem toNat_sum_addAll {items : List (SampleItem Payload)} (fits : total weight items < 2 ^ 64) :
    (addAll items).sum.toNat = total weight items := by
  rw [addAll, foldl_add]
  dsimp only
  rw [toNat_foldl (by rw [UInt64.toNat_zero, Nat.zero_add]; exact fits), UInt64.toNat_zero,
    Nat.zero_add]

end Adding

section Scanning

/-- Where the scan looks at an item, if the items are listed in the order of the scan. -/
theorem getElem?_scanned (chosen pool seen : List (SampleItem Payload))
    (item : SampleItem Payload) :
    (chosen ++ (seen ++ item :: pool).reverse)[chosen.length + pool.length]? = some item := by
  have shape : chosen ++ (seen ++ item :: pool).reverse =
      (chosen ++ pool.reverse) ++ item :: seen.reverse := by simp
  have index : chosen.length + pool.length = (chosen ++ pool.reverse).length := by simp
  rw [shape, index, List.getElem?_append_right le_rfl, Nat.sub_self, List.getElem?_cons_zero]

/-- The scan of the items that are left finds the item in whose section the number falls, when
the items seen so far are below the number. -/
theorem scan_eq {chosen seen before after : List (SampleItem Payload)} {item : SampleItem Payload}
    {rn prevSum : UInt64} (summed : prevSum.toNat = total weight seen)
    (fits : total weight (seen ++ (before ++ item :: after)) < 2 ^ 64)
    (above : total weight seen + total weight before ≤ rn.toNat)
    (below : rn.toNat < total weight seen + total weight before + weight item) :
    scan (chosen ++ (seen ++ (before ++ item :: after)).reverse) rn chosen.length
      (chosen.length + (before ++ item :: after).length) prevSum =
        some (chosen.length + after.length, item) := by
  induction before generalizing seen prevSum with
  | nil =>
      rw [List.nil_append, List.length_cons, ← Nat.add_assoc, scan, if_neg (by omega),
        getElem?_scanned]
      have reached : rn < item.priority + prevSum := by
        rw [UInt64.lt_iff_toNat_lt, UInt64.toNat_add]
        simp only [total_append, total_cons, total_nil, List.nil_append, weight] at *
        omega
      simp only [reached, ↓reduceIte]
  | cons first before ih =>
      rw [List.cons_append, List.length_cons, ← Nat.add_assoc, scan, if_neg (by omega),
        getElem?_scanned]
      simp only [total_append, total_cons, List.cons_append] at fits above below
      have skipped : ¬ rn < first.priority + prevSum := by
        rw [UInt64.lt_iff_toNat_lt, UInt64.toNat_add]
        simp only [weight] at *
        omega
      simp only [skipped, ↓reduceIte]
      have next : chosen ++ (seen ++ first :: (before ++ item :: after)).reverse =
          chosen ++ ((seen ++ [first]) ++ (before ++ item :: after)).reverse := by simp
      rw [next]
      refine ih ?_ ?_ ?_ ?_
      · rw [UInt64.toNat_add]
        simp only [total_append, total_cons, total_nil, weight] at *
        omega
      all_goals
        simp only [total_append, total_cons, total_nil]
        omega

/-- Exchanging the item found with the first one that is left takes it out of the items that
are left. -/
theorem swap_eq (chosen before after : List (SampleItem Payload)) (item : SampleItem Payload) :
    swap (chosen ++ (before ++ item :: after).reverse) (chosen.length + after.length)
        chosen.length =
      (chosen ++ [item]) ++ (swapRemove (before ++ item :: after) before.length).reverse := by
  have there := getElem?_scanned chosen after before item
  rcases List.eq_nil_or_concat after with rfl | ⟨after, last, rfl⟩
  · rw [swapRemove_last]
    simp [swap]
  · rw [List.concat_eq_append] at there ⊢
    have front : (chosen ++ (before ++ item :: (after ++ [last])).reverse)[chosen.length]? =
        some last := by simp
    rw [swapRemove_inner, swap, there, front]
    simp

/-- The loop has chosen some items, and the others are left in the order of the scan. -/
structure Loop.Holds (loop : Loop Payload) (chosen pool : List (SampleItem Payload)) : Prop where
  samples : loop.samples = chosen ++ pool.reverse
  remaining : loop.remaining = pool.length
  sumRemaining : loop.sumRemaining.toNat = total weight pool
  lastValidIdx : loop.lastValidIdx = chosen.length

namespace Loop

theorem holds_start {items : List (SampleItem Payload)} (fits : total weight items < 2 ^ 64) :
    (start (addAll items)).Holds [] items.reverse where
  samples := by simp [start]
  remaining := by simp [start]
  sumRemaining := by
    rw [total_reverse]
    exact toNat_sum_addAll fits
  lastValidIdx := rfl

namespace Holds

variable {loop : Loop Payload} {chosen pool : List (SampleItem Payload)} {rn : UInt64}

/-- An iteration finds the item in whose section the number falls. -/
theorem found {before after : List (SampleItem Payload)} {item : SampleItem Payload}
    (holds : loop.Holds chosen (before ++ item :: after))
    (above : total weight before ≤ rn.toNat)
    (below : rn.toNat < total weight before + weight item) :
    loop.found rn = some (chosen.length + after.length, item) := by
  have fits := holds.sumRemaining ▸ loop.sumRemaining.toNat_lt
  have count : loop.samples.length = chosen.length + (before ++ item :: after).length := by
    rw [holds.samples, List.length_append, List.length_reverse]
  rw [Loop.found, count, holds.samples, holds.lastValidIdx]
  exact @scan_eq _ _ [] _ _ _ _ _ rfl fits (by simpa using above) (by simpa using below)

/-- An iteration moves the item found to those that are chosen. -/
theorem pass {before after : List (SampleItem Payload)} {item : SampleItem Payload}
    (holds : loop.Holds chosen (before ++ item :: after))
    (above : total weight before ≤ rn.toNat)
    (below : rn.toNat < total weight before + weight item) :
    (loop.pass rn).Holds (chosen ++ [item])
      (swapRemove (before ++ item :: after) before.length) := by
  have left := swapRemove_perm before after item
  have sum := holds.sumRemaining
  have fewer : item.priority ≤ loop.sumRemaining := by
    rw [UInt64.le_iff_toNat_le, sum, total_append, total_cons, weight]
    omega
  rw [Loop.pass, holds.found above below]
  constructor
  · dsimp only
    rw [holds.samples, holds.lastValidIdx, swap_eq]
  · dsimp only
    rw [holds.remaining, left.length_eq]
    simp
  · dsimp only
    rw [UInt64.toNat_sub_of_le _ _ fewer, sum, total_perm left, total_append, total_cons,
      total_append, weight]
    omega
  · dsimp only
    rw [holds.lastValidIdx, List.length_append, List.length_singleton]

/-- Every number in the range selects an item. -/
theorem exists_section (holds : loop.Holds chosen pool) (inside : rn < loop.sumRemaining) :
    ∃ before item after, pool = before ++ item :: after ∧ total weight before ≤ rn.toNat ∧
      rn.toNat < total weight before + weight item := by
  rw [UInt64.lt_iff_toNat_lt, holds.sumRemaining] at inside
  obtain ⟨position, found⟩ := Option.isSome_iff_exists.mp (isSome_locate inside)
  obtain ⟨before, item, after, split, -, within⟩ := locate_eq_some_iff.mp found
  exact ⟨before, item, after, split, within⟩

/-- Iterations keep the items. -/
theorem run (holds : loop.Holds chosen pool) {draws : List UInt64} {last : Loop Payload}
    (executed : loop.run draws = some last) :
    ∃ chosen' pool', last.Holds chosen' pool' ∧ (chosen' ++ pool').Perm (chosen ++ pool) ∧
      chosen'.length = chosen.length + draws.length := by
  induction draws generalizing loop chosen pool with
  | nil =>
      obtain rfl := Option.some.inj executed
      exact ⟨chosen, pool, holds, .rfl, rfl⟩
  | cons rn draws ih =>
      rw [Loop.run] at executed
      split at executed
      · next guard =>
          obtain ⟨before, item, after, rfl, above, below⟩ := holds.exists_section guard.2
          obtain ⟨chosen', pool', holds', same, count⟩ := ih (holds.pass above below) executed
          refine ⟨chosen', pool', holds', same.trans ?_, ?_⟩
          · rw [List.append_assoc]
            have left := (swapRemove_perm before after item).cons item
            exact (left.trans List.perm_middle.symm).append_left chosen
          · rw [count]
            simp
            omega
      · cases executed

end Holds

theorem reverse_of_small {items : List (SampleItem Payload)} (small : items.length ≤ 1) :
    items.reverse = items := by
  match items, small with
  | [], _ => rfl
  | [_], _ => rfl

theorem outcome_nil (loop : Loop Payload) :
    loop.outcome [] = if 1 < loop.remaining then none else some loop.samples := rfl

theorem outcome_cons (loop : Loop Payload) (rn : UInt64) (draws : List UInt64) :
    loop.outcome (rn :: draws) =
      if 1 < loop.remaining ∧ rn < loop.sumRemaining then (loop.pass rn).outcome draws
      else none := by
  unfold outcome
  rw [run]
  split <;> rfl

/-- The loop shuffles the items that are left by their priorities. -/
theorem outcome_eq {loop : Loop Payload} {chosen pool : List (SampleItem Payload)}
    (holds : loop.Holds chosen pool) (draws : List UInt64) :
    loop.outcome draws = (shuffle weight pool (draws.map UInt64.toNat)).map (chosen ++ ·) := by
  induction draws generalizing loop chosen pool with
  | nil =>
      rw [outcome_nil, holds.remaining, holds.samples, List.map_nil, shuffle]
      by_cases large : 1 < pool.length
      · rw [if_pos large, if_neg (by omega)]
        rfl
      · rw [if_neg large, if_pos (by omega), reverse_of_small (by omega)]
        rfl
  | cons rn draws ih =>
      rw [outcome_cons, List.map_cons]
      split
      · next guard =>
          obtain ⟨before, item, after, rfl, above, below⟩ := holds.exists_section guard.2
          rw [ih (holds.pass above below),
            shuffle_cons_of_section _ (holds.remaining ▸ guard.1) above below, Option.map_map]
          congr 1
          funext order
          simp
      · next refused =>
          rw [holds.remaining, UInt64.lt_iff_toNat_lt, holds.sumRemaining] at refused
          rw [shuffle_cons_eq_none _ refused]
          rfl

/-- The arguments of the draws are the ranges of the shuffle. -/
theorem arguments_eq {loop : Loop Payload} {chosen pool : List (SampleItem Payload)}
    (holds : loop.Holds chosen pool) {draws : List UInt64} {order : List (SampleItem Payload)}
    (outcome : shuffle weight pool (draws.map UInt64.toNat) = some order) :
    (loop.arguments draws).map UInt64.toNat = ranges weight pool (draws.map UInt64.toNat) := by
  induction draws generalizing loop chosen pool order with
  | nil => rfl
  | cons rn draws ih =>
      rw [List.map_cons] at outcome ⊢
      obtain ⟨-, before, item, after, rest, rfl, within, left, -⟩ := shuffle_cons_iff.mp outcome
      rw [arguments, List.map_cons, ih (holds.pass within.1 within.2) left, holds.sumRemaining,
        ranges, locate_eq_some_iff.mpr ⟨before, item, after, rfl, rfl, within⟩, Option.elim_some]

end Loop

end Scanning

section Positions

/-- The sampler with other payloads. -/
def map (change : Payload → Other) (s : PrioritySampler Payload) : PrioritySampler Other where
  sum := s.sum
  samples := s.samples.map (SampleItem.map change)

/-- The loop with other payloads. -/
def Loop.map (change : Payload → Other) (loop : Loop Payload) : Loop Other :=
  { loop with samples := loop.samples.map (SampleItem.map change) }

theorem scan_map (change : Payload → Other) (samples : List (SampleItem Payload)) (rn : UInt64)
    (lastValidIdx index : ℕ) (prevSum : UInt64) :
    scan (samples.map (SampleItem.map change)) rn lastValidIdx index prevSum =
      (scan samples rn lastValidIdx index prevSum).map (Prod.map id (SampleItem.map change)) := by
  induction index generalizing prevSum with
  | zero => rfl
  | succ index ih =>
      rw [scan, scan, List.getElem?_map]
      split
      · rfl
      · cases samples[index]? with
        | none => rfl
        | some sample =>
            simp only [Option.map_some, SampleItem.map]
            split
            · rfl
            · exact ih _

theorem swap_map {Element Image : Type} (change : Element → Image) (elements : List Element)
    (i j : ℕ) : swap (elements.map change) i j = (swap elements i j).map change := by
  unfold swap
  rw [List.getElem?_map, List.getElem?_map]
  cases elements[i]? with
  | none => rfl
  | some first =>
      cases elements[j]? with
      | none => rfl
      | some second => simp [List.map_set]

namespace Loop

theorem found_map (change : Payload → Other) (loop : Loop Payload) (rn : UInt64) :
    (loop.map change).found rn =
      (loop.found rn).map (Prod.map id (SampleItem.map change)) := by
  unfold found
  rw [map, List.length_map]
  exact scan_map ..

theorem pass_map (change : Payload → Other) (loop : Loop Payload) (rn : UInt64) :
    (loop.map change).pass rn = (loop.pass rn).map change := by
  unfold pass
  rw [found_map]
  cases loop.found rn with
  | none => rfl
  | some pair => simp [map, swap_map, SampleItem.map]

theorem outcome_map (change : Payload → Other) (loop : Loop Payload) (draws : List UInt64) :
    (loop.map change).outcome draws =
      (loop.outcome draws).map (List.map (SampleItem.map change)) := by
  induction draws generalizing loop with
  | nil =>
      rw [outcome_nil, outcome_nil]
      change (if 1 < loop.remaining then _ else _) = _
      split <;> rfl
  | cons rn draws ih =>
      rw [outcome_cons, outcome_cons, pass_map, ih]
      change (if 1 < loop.remaining ∧ rn < loop.sumRemaining then _ else _) = _
      split <;> rfl

end Loop

/-- The sampler does not look at the payloads. -/
theorem sample_map (change : Payload → Other) (s : PrioritySampler Payload) (draws : List UInt64) :
    sample (s.map change) draws = (sample s draws).map (map change) := by
  have start : Loop.start (s.map change) = (Loop.start s).map change := by
    simp [Loop.start, map, Loop.map]
  rw [sample, sample, start, Loop.outcome_map, Option.map_map, Option.map_map]
  rfl

/-- The items with their positions, which keep equal items apart. -/
def tagged (items : List (SampleItem Payload)) : List (SampleItem (Payload × ℕ)) :=
  items.zipIdx.map fun pair => pair.1.map fun payload => (payload, pair.2)

theorem nodup_tagged (items : List (SampleItem Payload)) : (tagged items).Nodup := by
  have positions : (tagged items).map (fun item => item.payload.2) = List.range items.length := by
    rw [tagged, List.map_map, List.range_eq_range', ← List.zipIdx_map_snd]
    rfl
  exact List.Nodup.of_map _ (positions ▸ List.nodup_range)

theorem untag_tagged (items : List (SampleItem Payload)) :
    (tagged items).map (SampleItem.map Prod.fst) = items := by
  rw [tagged, List.map_map]
  exact List.zipIdx_map_fst 0 items

theorem untag_mem {items : List (SampleItem Payload)} {item : SampleItem (Payload × ℕ)}
    (member : item ∈ tagged items) : item.map Prod.fst ∈ items := by
  rw [← untag_tagged items]
  exact List.mem_map_of_mem member

theorem total_tagged (items : List (SampleItem Payload)) :
    total weight (tagged items) = total weight items := by
  conv_rhs => rw [← untag_tagged items]
  rw [total, total, List.map_map]
  rfl

theorem map_addAll (change : Payload → Other) (items : List (SampleItem Payload)) :
    (addAll items).map change = addAll (items.map (SampleItem.map change)) := by
  rw [addAll, addAll, foldl_add, foldl_add, map, List.foldl_map]
  rfl

/-- The sequences of draws that produce an ordering of the items. -/
def producing (items : List (SampleItem Payload)) (order : List (SampleItem (Payload × ℕ))) :
    Set (List UInt64) :=
  {draws | (sample (addAll (tagged items)) draws).map PrioritySampler.samples = some order}

/-- The probability of an ordering of the items when the draws are uniform. -/
noncomputable def probability (items : List (SampleItem Payload))
    (order : List (SampleItem (Payload × ℕ))) : ℚ :=
  ∑ᶠ draws ∈ producing items order,
    chance (((Loop.start (addAll (tagged items))).arguments draws).map UInt64.toNat)

end Positions

section Exactness

variable {items : List (SampleItem Payload)}

/-- The sampler shuffles its items by their priorities. -/
theorem sample_eq (fits : total weight items < 2 ^ 64) (draws : List UInt64) :
    sample (addAll items) draws =
      (shuffle weight items.reverse (draws.map UInt64.toNat)).map fun samples =>
        { addAll items with samples } := by
  rw [sample, Loop.outcome_eq (Loop.holds_start fits), Option.map_map]
  rfl

/-- No draw is from an empty range, and every scan finds an item. -/
theorem found_of_run (positive : ∀ item ∈ items, 1 ≤ item.priority)
    (fits : total weight items < 2 ^ 64) {draws : List UInt64} {loop : Loop Payload}
    (executed : (Loop.start (addAll items)).run draws = some loop) (more : 1 < loop.remaining) :
    loop.sumRemaining ≠ 0 ∧ ∀ rn < loop.sumRemaining, (loop.found rn).isSome := by
  obtain ⟨chosen, pool, holds, same, -⟩ := (Loop.holds_start fits).run executed
  constructor
  · intro zero
    have sum := holds.sumRemaining
    rw [zero] at sum
    cases pool with
    | nil =>
        rw [holds.remaining] at more
        exact absurd more (Nat.not_lt_zero 1)
    | cons item pool =>
        have member : item ∈ items :=
          List.mem_reverse.mp (same.mem_iff.mp (List.mem_append_right _ List.mem_cons_self))
        have weighty := UInt64.le_iff_toNat_le.mp (positive item member)
        rw [total_cons, weight] at sum
        simp at sum weighty
        omega
  · intro rn inside
    obtain ⟨before, item, after, rfl, above, below⟩ := holds.exists_section inside
    rw [holds.found above below]
    rfl

/-- After a draw for every item but one, the sampler has the same items in some order, and the
sum is still that of their priorities. -/
theorem sample_of_run (fits : total weight items < 2 ^ 64) {draws : List UInt64}
    {loop : Loop Payload} (executed : (Loop.start (addAll items)).run draws = some loop)
    (all : draws.length = items.length - 1) :
    sample (addAll items) draws = some (addAll loop.samples) ∧ loop.samples.Perm items := by
  obtain ⟨chosen, pool, holds, same, count⟩ := (Loop.holds_start fits).run executed
  have kept : loop.samples.Perm items := by
    rw [holds.samples]
    exact ((pool.reverse_perm.append_left chosen).trans same).trans items.reverse_perm
  have fewer : ¬ 1 < loop.remaining := by
    have lengths := same.length_eq
    simp only [List.length_append, List.length_nil, List.length_reverse] at lengths count
    rw [holds.remaining]
    omega
  have sums : (addAll items).sum = (addAll loop.samples).sum := by
    rw [← UInt64.toNat_inj, toNat_sum_addAll fits,
      toNat_sum_addAll (total_perm kept ▸ fits), total_perm kept]
  refine ⟨?_, kept⟩
  rw [sample, Loop.outcome, executed, Option.bind_some, if_neg fewer, Option.map_some, sums]
  exact congrArg some (congrArg₂ PrioritySampler.mk rfl (samples_addAll _).symm)

theorem mem_producing (fits : total weight items < 2 ^ 64)
    {order : List (SampleItem (Payload × ℕ))} {draws : List UInt64} :
    draws ∈ producing items order ↔
      shuffle weight (tagged items).reverse (draws.map UInt64.toNat) = some order := by
  change (sample (addAll (tagged items)) draws).map PrioritySampler.samples = some order ↔ _
  rw [sample_eq (total_tagged items ▸ fits)]
  simp

/-- The sequences of draws that produce an ordering are those of the shuffle. -/
theorem image_producing (fits : total weight items < 2 ^ 64)
    (order : List (SampleItem (Payload × ℕ))) :
    List.map UInt64.toNat '' producing items order =
      {draws | shuffle weight (tagged items).reverse draws = some order} := by
  ext draws
  constructor
  · rintro ⟨words, produced, rfl⟩
    exact (mem_producing fits).mp produced
  · intro outcome
    have whole : total weight (tagged items).reverse = total weight items := by
      rw [total_reverse, total_tagged]
    have small : ∀ number ∈ draws, number < 2 ^ 64 := fun number drawn =>
      (lt_total_of_shuffle outcome number drawn).trans (whole ▸ fits)
    have words : (draws.map UInt64.ofNat).map UInt64.toNat = draws := by
      rw [List.map_map]
      refine (List.map_congr_left fun number drawn => ?_).trans (List.map_id draws)
      exact UInt64.toNat_ofNat_of_lt' (small number drawn)
    exact ⟨_, (mem_producing fits).mpr (words.symm ▸ outcome), words⟩

theorem ncard_producing (fits : total weight items < 2 ^ 64)
    {order : List (SampleItem (Payload × ℕ))} (same : order.Perm (tagged items)) :
    (producing items order).ncard = (order.dropLast.map weight).prod := by
  have injective : Function.Injective (List.map UInt64.toNat) :=
    List.map_injective_iff.mpr fun _ _ => UInt64.toNat_inj.mp
  rw [← Set.ncard_image_of_injective _ injective, image_producing fits]
  exact ncard_shuffle (List.nodup_reverse.mpr (nodup_tagged items))
    (same.trans (tagged items).reverse_perm.symm)

theorem probability_eq (positive : ∀ item ∈ items, 1 ≤ item.priority)
    (fits : total weight items < 2 ^ 64) {order : List (SampleItem (Payload × ℕ))}
    (same : order.Perm (tagged items)) :
    probability items order = withoutReplacement weight order := by
  have count := ncard_producing fits same
  have finite : (producing items order).Finite := by
    refine Set.finite_of_ncard_ne_zero ?_
    rw [count]
    refine List.prod_ne_zero fun zero => ?_
    obtain ⟨item, member, weightless⟩ := List.mem_map.mp zero
    have original := untag_mem (same.mem_iff.mp (List.mem_of_mem_dropLast member))
    have weighty := UInt64.le_iff_toNat_le.mp (positive _ original)
    exact absurd weightless (Nat.ne_of_gt weighty)
  rw [probability, withoutReplacement_eq, ← count]
  refine finsum_mem_eq_ncard_mul finite fun draws produced => ?_
  have outcome := (mem_producing fits).mp produced
  rw [Loop.arguments_eq (Loop.holds_start (total_tagged items ▸ fits)) outcome,
    ranges_of_shuffle outcome]

/-- The sampler is an exact weighted shuffle. For items with priorities of at least one, in any
order, whose sum fits: no draw is from an empty range and every scan finds an item; a draw for
every item but one leaves the items in some order with the sum of their priorities, so that the
sampler can be used again; and every ordering of the items, equal ones kept apart by their
positions, is produced by as many sequences of draws as the product of the priorities of all
its items but the last, with the probability of sampling without replacement. -/
theorem sample_exact (items : List (SampleItem Payload))
    (positive : ∀ item ∈ items, 1 ≤ item.priority)
    (fits : (items.map fun item => item.priority.toNat).sum < 2 ^ 64) :
    (∀ draws loop, (Loop.start (addAll items)).run draws = some loop → 1 < loop.remaining →
      loop.sumRemaining ≠ 0 ∧ ∀ rn < loop.sumRemaining, (loop.found rn).isSome) ∧
    (∀ draws loop, (Loop.start (addAll items)).run draws = some loop →
      draws.length = items.length - 1 →
      sample (addAll items) draws = some (addAll loop.samples) ∧ loop.samples.Perm items) ∧
    (∀ draws, (sample (addAll (tagged items)) draws).map (map Prod.fst) =
      sample (addAll items) draws) ∧
    ∀ order, order.Perm (tagged items) →
      (producing items order).ncard =
        (order.dropLast.map fun item => item.priority.toNat).prod ∧
      probability items order = withoutReplacement weight order := by
  refine ⟨fun _ _ => found_of_run positive fits, fun _ _ => sample_of_run fits, fun draws => ?_,
    fun order same => ⟨ncard_producing fits same, probability_eq positive fits same⟩⟩
  rw [← sample_map, map_addAll, untag_tagged]

/-- Three items with the priorities 5, 2 and 1. -/
def three : List (SampleItem String) := [⟨5, "a"⟩, ⟨2, "b"⟩, ⟨1, "c"⟩]

/-- They stay in their order for 10 of the sequences of two draws, with probability 5/12. -/
theorem sample_exact_three :
    (producing three (tagged three)).ncard = 10 ∧ probability three (tagged three) = 5 / 12 := by
  have exactly := (sample_exact three (by decide) (by decide)).2.2.2 (tagged three) .rfl
  refine ⟨exactly.1, exactly.2.trans ?_⟩
  simp [tagged, three, SampleItem.map, withoutReplacement, weight]
  norm_num

end Exactness

section Fetching

/-- The sampler of a worker. The job types are added in any order. -/
def ofJobTypes (jobTypes : List JobType) : PrioritySampler String :=
  addAll (jobTypes.map fun jobType => ⟨jobType.priority, jobType.name⟩)

/-- The priority of a registered job type. -/
theorem priority_of_validated {options valid : JobOptions}
    (validated : applyDefaultsAndValidate options = some valid) :
    1 ≤ valid.priority ∧ valid.priority ≤ 100000 := by
  simp only [applyDefaultsAndValidate] at validated
  have positive : 1 ≤ if options.priority = 0 then 1 else options.priority := by
    split
    · exact UInt64.le_refl 1
    · next nonzero => exact UInt64.pos_iff_ne_zero.mpr nonzero
  generalize (if options.priority = 0 then 1 else options.priority) = priority
    at positive validated
  split at validated
  · cases validated
  · next small =>
      obtain rfl := Option.some.inj validated
      exact ⟨positive, UInt64.not_lt.mp small⟩

/-- The sampler of a worker shuffles exactly, unless there are more than 184467440737095
registered job types. -/
theorem fits_ofJobTypes {jobTypes : List JobType}
    (validated : ∀ jobType ∈ jobTypes, ∃ options,
      applyDefaultsAndValidate options = some jobType.toJobOptions)
    (few : jobTypes.length ≤ 184467440737095) :
    (∀ item ∈ (ofJobTypes jobTypes).samples, 1 ≤ item.priority) ∧
      ((ofJobTypes jobTypes).samples.map fun item => item.priority.toNat).sum < 2 ^ 64 := by
  have bounds : ∀ item ∈ (ofJobTypes jobTypes).samples,
      1 ≤ item.priority ∧ item.priority ≤ 100000 := by
    rw [ofJobTypes, samples_addAll]
    rintro _ member
    obtain ⟨jobType, registered, rfl⟩ := List.mem_map.mp member
    obtain ⟨options, valid⟩ := validated jobType registered
    exact priority_of_validated valid
  refine ⟨fun item member => (bounds item member).1, ?_⟩
  have sum := List.sum_le_card_nsmul
    ((ofJobTypes jobTypes).samples.map fun item => item.priority.toNat) 100000 (by
      intro value listed
      obtain ⟨item, member, rfl⟩ := List.mem_map.mp listed
      exact UInt64.le_iff_toNat_le.mp (bounds item member).2)
  rw [List.length_map, ofJobTypes, samples_addAll, List.length_map, smul_eq_mul] at sum
  rw [ofJobTypes, samples_addAll]
  omega

end Fetching

end PrioritySampler
