import Mathlib.Algebra.BigOperators.Group.List.Basic
import Mathlib.Data.List.Count
import Mathlib.Data.List.Sort
import Mathlib.Data.Int.Order.Basic
import Mathlib.Order.RelClasses

/-! # Scored sets in ascending order

A sorted set is a finite set of members with an integer score each, listed by
ascending score and, among equal scores, by the order of the members. Adding a
member that is present moves it to its new score. Reading the members up to a
score returns them in that order (`SortedSet.upTo`).
-/

variable {Member : Type} [DecidableEq Member] [Preorder Member] [DecidableLE Member]
  [@Std.Total Member (· ≤ ·)]

/-- Entries compare by score and then by member. -/
def ScoredLE (first second : Int × Member) : Prop :=
  first.1 < second.1 ∨ (first.1 = second.1 ∧ first.2 ≤ second.2)

instance : DecidableRel (@ScoredLE Member _) := fun first second =>
  inferInstanceAs (Decidable (first.1 < second.1 ∨ (first.1 = second.1 ∧ first.2 ≤ second.2)))

omit [DecidableEq Member] [DecidableLE Member] in
instance : Std.Total (@ScoredLE Member _) where
  total first second := by
    rcases lt_trichotomy first.1 second.1 with below | same | above
    · exact .inl (.inl below)
    · rcases Std.Total.total (r := (· ≤ ·)) first.2 second.2 with le | ge
      · exact .inl (.inr ⟨same, le⟩)
      · exact .inr (.inr ⟨same.symm, ge⟩)
    · exact .inr (.inl above)

omit [DecidableEq Member] [DecidableLE Member] [@Std.Total Member (· ≤ ·)] in
instance : IsTrans (Int × Member) ScoredLE where
  trans first second third left right := by
    rcases left with below | ⟨same, le⟩ <;> rcases right with below' | ⟨same', le'⟩
    · exact .inl (below.trans below')
    · exact .inl (same' ▸ below)
    · exact .inl (same ▸ below')
    · exact .inr ⟨same.trans same', le.trans le'⟩

/-- A finite set of scored members in ascending order. -/
structure SortedSet (Member : Type) [Preorder Member] where
  entries : List (Int × Member)
  sorted : entries.Pairwise ScoredLE
  nodup : (entries.map Prod.snd).Nodup

namespace SortedSet

/-- The set without members. -/
def empty : SortedSet Member := ⟨[], .nil, .nil⟩

/-- The members in ascending order of their scores. -/
def members (set : SortedSet Member) : List Member := set.entries.map Prod.snd

/-- Remove a member. -/
def erase (set : SortedSet Member) (member : Member) : SortedSet Member where
  entries := set.entries.filter fun entry => entry.2 ≠ member
  sorted := set.sorted.filter _
  nodup := set.nodup.sublist (List.filter_sublist.map _)

/-- Add a member, or move it to a new score. -/
def add (set : SortedSet Member) (score : Int) (member : Member) : SortedSet Member where
  entries := (set.erase member).entries.orderedInsert ScoredLE (score, member)
  sorted := (set.erase member).sorted.orderedInsert (score, member) _
  nodup := by
    refine (((List.perm_orderedInsert ScoredLE (score, member) _).map Prod.snd).nodup_iff).mpr ?_
    rw [List.map_cons, List.nodup_cons]
    refine ⟨?_, (set.erase member).nodup⟩
    intro present
    obtain ⟨entry, kept, same⟩ := List.mem_map.mp present
    exact of_decide_eq_true (List.mem_filter.mp kept).2 same

/-- The members whose score is at most a bound, in ascending order. -/
def upTo (set : SortedSet Member) (bound : Int) : List Member :=
  (set.entries.filter fun entry => entry.1 ≤ bound).map Prod.snd

/-- The members with exactly one score. -/
def withScore (set : SortedSet Member) (score : Int) : List Member :=
  (set.entries.filter fun entry => entry.1 = score).map Prod.snd

omit [DecidableEq Member] [DecidableLE Member] [@Std.Total Member (· ≤ ·)] in
@[simp] theorem members_empty : (empty : SortedSet Member).members = [] := rfl

omit [DecidableLE Member] [@Std.Total Member (· ≤ ·)] in
theorem members_erase (set : SortedSet Member) (member : Member) :
    (set.erase member).members = set.members.erase member := by
  unfold members
  rw [List.Nodup.erase_eq_filter set.nodup, erase, List.filter_map]
  congr 1
  apply List.filter_congr
  intro entry _
  simp only [ne_eq, decide_not, Function.comp_apply, bne, beq_eq_decide]

theorem members_add_perm (set : SortedSet Member) (score : Int) (member : Member) :
    (set.add score member).members.Perm (member :: set.members.erase member) := by
  rw [← members_erase]
  exact (List.perm_orderedInsert ScoredLE (score, member) _).map Prod.snd

omit [DecidableLE Member] [@Std.Total Member (· ≤ ·)] in
@[simp] theorem mem_erase (set : SortedSet Member) (member other : Member) :
    other ∈ (set.erase member).members ↔ other ≠ member ∧ other ∈ set.members := by
  rw [members_erase]
  exact List.Nodup.mem_erase_iff set.nodup

@[simp] theorem mem_add (set : SortedSet Member) (score : Int) (member other : Member) :
    other ∈ (set.add score member).members ↔ other = member ∨ other ∈ set.members := by
  rw [(set.members_add_perm score member).mem_iff, List.mem_cons, ← members_erase, mem_erase]
  by_cases same : other = member
  · simp only [same, true_or]
  · simp only [same, false_or, ne_eq, not_false_eq_true, true_and]

theorem mem_entries_add (set : SortedSet Member) (score : Int) (member : Member)
    (entry : Int × Member) :
    entry ∈ (set.add score member).entries ↔
      entry = (score, member) ∨ entry ∈ set.entries ∧ entry.2 ≠ member := by
  rw [add, (List.perm_orderedInsert ScoredLE (score, member) _).mem_iff, List.mem_cons, erase,
    List.mem_filter, decide_eq_true_eq]

omit [DecidableEq Member] [DecidableLE Member] [@Std.Total Member (· ≤ ·)] in
theorem upTo_sublist (set : SortedSet Member) (bound : Int) :
    (set.upTo bound).Sublist set.members := List.filter_sublist.map _

omit [DecidableEq Member] [DecidableLE Member] [@Std.Total Member (· ≤ ·)] in
theorem withScore_sublist (set : SortedSet Member) (score : Int) :
    (set.withScore score).Sublist set.members := List.filter_sublist.map _

omit [DecidableEq Member] [DecidableLE Member] [@Std.Total Member (· ≤ ·)] in
theorem mem_of_mem_upTo {set : SortedSet Member} {bound : Int} {member : Member}
    (due : member ∈ set.upTo bound) : member ∈ set.members := (set.upTo_sublist bound).mem due

omit [DecidableEq Member] [DecidableLE Member] [@Std.Total Member (· ≤ ·)] in
theorem mem_of_mem_withScore {set : SortedSet Member} {score : Int} {member : Member}
    (found : member ∈ set.withScore score) : member ∈ set.members :=
  (set.withScore_sublist score).mem found

omit [DecidableEq Member] [DecidableLE Member] [@Std.Total Member (· ≤ ·)] in
theorem upTo_eq_nil_iff {set : SortedSet Member} {bound : Int} :
    set.upTo bound = [] ↔ ∀ entry ∈ set.entries, bound < entry.1 := by
  rw [upTo, List.map_eq_nil_iff, List.filter_eq_nil_iff]
  simp only [decide_eq_true_eq, not_le]

section UpTo

variable (set : SortedSet Member) (member : Member) {bound : Int}

omit [DecidableLE Member] [@Std.Total Member (· ≤ ·)] in
/-- Removing a member removes it from those up to a bound. -/
theorem upTo_erase (bound : Int) :
    (set.erase member).upTo bound = (set.upTo bound).filter fun other => other ≠ member := by
  rw [upTo, upTo, List.filter_map, erase, List.filter_filter, List.filter_filter]
  congr 1
  apply List.filter_congr
  intro entry _
  exact Bool.and_comm _ _

/-- A member that is added behind a bound is not among those up to the bound. -/
theorem upTo_add_of_lt {score : Int} (behind : bound < score) :
    (set.add score member).upTo bound = (set.upTo bound).filter fun other => other ≠ member := by
  have inserted : (set.add score member).entries =
      (set.erase member).entries.orderedInsert ScoredLE (score, member) := rfl
  rw [← upTo_erase, upTo, upTo, inserted, List.orderedInsert_eq_take_drop, List.filter_append,
    List.filter_cons_of_neg (by simpa using behind), ← List.filter_append,
    List.takeWhile_append_dropWhile]

end UpTo

section Head

variable {set : SortedSet Member} {entry : Int × Member} {rest : List (Int × Member)}

omit [DecidableEq Member] [DecidableLE Member] [@Std.Total Member (· ≤ ·)] in
/-- The first entry is the first one up to a bound, if it is within the bound. -/
theorem head?_upTo (entries : set.entries = entry :: rest) {bound : Int}
    (due : entry.1 ≤ bound) : (set.upTo bound).head? = some entry.2 := by
  rw [upTo, entries, List.filter_cons_of_pos (by simpa using due)]
  rfl

omit [DecidableEq Member] [DecidableLE Member] [@Std.Total Member (· ≤ ·)] in
/-- Nothing is within a bound that the first entry exceeds. -/
theorem upTo_eq_nil (entries : set.entries = entry :: rest) {bound : Int}
    (later : bound < entry.1) : set.upTo bound = [] := by
  have sorted := set.sorted
  rw [entries, List.pairwise_cons] at sorted
  rw [upTo_eq_nil_iff, entries]
  intro other member
  rcases List.mem_cons.mp member with rfl | behind
  · exact later
  · rcases sorted.1 other behind with below | ⟨same, -⟩ <;> omega

omit [DecidableLE Member] [@Std.Total Member (· ≤ ·)] in
/-- Removing the first member leaves the other entries. -/
theorem entries_erase_head (entries : set.entries = entry :: rest) :
    (set.erase entry.2).entries = rest := by
  have distinct := set.nodup
  rw [entries, List.map_cons, List.nodup_cons] at distinct
  change set.entries.filter (fun other => other.2 ≠ entry.2) = rest
  rw [entries, List.filter_cons_of_neg (by simp), List.filter_eq_self]
  intro other member
  refine decide_eq_true fun same => distinct.1 ?_
  exact same ▸ List.mem_map_of_mem member

end Head

section Sums

variable {Total : Type} [AddCommMonoid Total] (set : SortedSet Member) {value : Member → Total}
  {member : Member}

omit [DecidableLE Member] [@Std.Total Member (· ≤ ·)] in
theorem sum_erase (present : member ∈ set.members) :
    (set.members.map value).sum = ((set.erase member).members.map value).sum + value member := by
  rw [members_erase, add_comm, List.sum_map_erase value present]

omit [DecidableLE Member] [@Std.Total Member (· ≤ ·)] in
theorem sum_erase_of_eq_zero (nothing : value member = 0) :
    ((set.erase member).members.map value).sum = (set.members.map value).sum := by
  by_cases present : member ∈ set.members
  · rw [set.sum_erase present, nothing, add_zero]
  · rw [members_erase, List.erase_of_not_mem present]

theorem sum_add (score : Int) :
    ((set.add score member).members.map value).sum =
      ((set.erase member).members.map value).sum + value member := by
  rw [((set.members_add_perm score member).map value).sum_eq, List.map_cons, List.sum_cons,
    members_erase, add_comm]

end Sums

section Counting

variable (set : SortedSet Member) {counts : Member → Bool} {member : Member}

omit [DecidableLE Member] [@Std.Total Member (· ≤ ·)] in
theorem countP_erase_of_neg (other : counts member = false) :
    (set.erase member).members.countP counts = set.members.countP counts := by
  rw [members_erase, List.countP_erase, if_neg (by simp [other])]
  rfl

omit [DecidableLE Member] [@Std.Total Member (· ≤ ·)] in
theorem countP_erase_of_mem (own : counts member) (present : member ∈ set.members) :
    set.members.countP counts = (set.erase member).members.countP counts + 1 := by
  have positive : 0 < set.members.countP counts := List.countP_pos_iff.mpr ⟨member, present, own⟩
  rw [members_erase, List.countP_erase, if_pos ⟨present, own⟩]
  omega

theorem countP_add_of_neg (score : Int) (other : counts member = false) :
    (set.add score member).members.countP counts = set.members.countP counts := by
  rw [(set.members_add_perm score member).countP_eq, List.countP_cons_of_neg (by simp [other]),
    ← members_erase, countP_erase_of_neg set other]

theorem countP_add_of_notMem (score : Int) (own : counts member)
    (absent : member ∉ set.members) :
    (set.add score member).members.countP counts = set.members.countP counts + 1 := by
  rw [(set.members_add_perm score member).countP_eq, List.countP_cons_of_pos own,
    List.erase_of_not_mem absent]

end Counting

end SortedSet
