import Mathlib.Data.List.Forall2
import Mathlib.Logic.Relation
import WorkQueue.Client.Heartbeats
import WorkQueue.Delivery.Failures
import WorkQueue.Delivery.Relocation

/-! # Retrying all dead jobs

A client that retries all dead jobs runs a script that requeues the first thousand due ones,
and runs it again until it has requeued none. Due jobs of unknown names are moved behind the
due ones, so a batch without a known name ends the sweep although due jobs may be left. All
dead jobs are retried if and only if that does not happen (`Sweeps`) and the time is short
(`Client.retriedAll_iff`).
-/

namespace RawJSON

/-- A payload is a document with a name that is not empty. -/
def HasName (raw : RawJSON) : Prop := ∃ name, raw.textField "name" = some name ∧ name ≠ ""

/-- Whether a payload carries a name. -/
def isNamed (name : String) (raw : RawJSON) : Bool := raw.textField "name" = some name

/-- Whether the name of a payload is among some names. -/
def isKnown (known : List String) (raw : RawJSON) : Bool :=
  (raw.textField "name").any fun name => name ∈ known

/-- What a script pushes for a dead payload of a known name. -/
def revived (now : Int64) (raw : RawJSON) : Option RawJSON :=
  (Cjson.decode raw).bind fun job => Cjson.encode (Store.revivedJob now job)

/-- What a script writes for a dead payload of an unknown name. -/
def reburied (now : Int64) (raw : RawJSON) : Option RawJSON :=
  (Cjson.decode raw).bind fun job => Cjson.encode (Store.unknownJob now job)

variable {known : List String} {now : Int64} {raw written : RawJSON} {name : String}

theorem isKnown_of_named (named : raw.textField "name" = some name) :
    raw.isKnown known = decide (name ∈ known) := by
  rw [isKnown, named]
  rfl

/-- A payload of an unknown name keeps its name. -/
theorem textField_reburied (rewritten : raw.reburied now = some written)
    (named : raw.textField "name" = some name) : written.textField "name" = some name := by
  obtain ⟨lua, decoded, encoded⟩ := Option.bind_eq_some_iff.mp rewritten
  rw [Cjson.textField_encode encoded, (Store.sameIdentity_unknownJob now lua).name]
  exact Cjson.textField_decode decoded named

/-- A payload of an unknown name gets an error and the time of failure. -/
theorem fields_reburied (rewritten : raw.reburied now = some written)
    (named : raw.HasName) :
    written.field "err" = some (.str "unknown job when requeueing") ∧
      written.field "failed_at" = some (Cjson.encodeValue (Cjson.toNumber now)) := by
  obtain ⟨lua, decoded, encoded⟩ := Option.bind_eq_some_iff.mp rewritten
  obtain ⟨name, named, nonempty⟩ := named
  have object := Cjson.textField_decode decoded named
  cases lua with
  | obj fields =>
      rw [Cjson.field_encode encoded, Cjson.field_encode encoded, Store.unknownJob,
        Cjson.field_setField (by decide)]
      simp only [Cjson.setField, Json.field, Json.getField_setField_self, Option.map_some, and_true]
      rfl
  | null =>
      obtain rfl := Option.some.inj object
      exact (nonempty rfl).elim
  | _ => cases object

/-- Rewriting a payload any number of times keeps its name. -/
theorem textField_rewritten
    (rewritten : Relation.ReflTransGen (fun before after => before.reburied now = some after)
      raw written) (named : raw.textField "name" = some name) :
    written.textField "name" = some name := by
  induction rewritten with
  | refl => exact named
  | tail _ step ih => exact textField_reburied step ih

end RawJSON

namespace Store

/-- The payload on a queue is that of a dead job which was enqueued now, without its
failures. -/
structure Revived (now : Int64) (raw pushed : RawJSON) : Prop where
  time : Job.decodeInt64 (pushed.field "t") = some now
  cleared : ∀ key ∈ ["fails", "err", "failed_at"], pushed.field key = none
  others : ∀ key ∉ ["t", "fails", "err", "failed_at"],
    pushed.field key = (raw.field key).map Cjson.detour

/-- The payload of an unknown job is among the dead jobs, with its error and the time of
failure overwritten, behind the jobs that are due now. -/
structure Reburied (store : Store) (now : Int64) (raw written : RawJSON) : Prop where
  entry : (now.toInt + 5, written) ∈ (store.zset .dead).entries
  rewritten : Relation.ReflTransGen (fun before after => before.reburied now = some after)
    raw written
  err : written.field "err" = some (.str "unknown job when requeueing")
  failedAt : written.field "failed_at" = some (Cjson.encodeValue (Cjson.toNumber now))

namespace Reburied

variable {store : Store} {now : Int64} {raw written other : RawJSON}

theorem zrem (kept : store.Reburied now raw written) (apart : written ≠ other) :
    (store.zrem .dead other).Reburied now raw written := by
  refine { kept with entry := ?_ }
  simp only [Store.zrem, Function.update_self, SortedSet.erase, List.mem_filter]
  exact ⟨kept.entry, decide_eq_true apart⟩

theorem lpush (kept : store.Reburied now raw written) (key : ListKey) (pushed : RawJSON) :
    (store.lpush key pushed).Reburied now raw written :=
  { kept with entry := kept.entry }

theorem zadd (kept : store.Reburied now raw written) (other : RawJSON) :
    (store.zadd .dead (now.toInt + 5) other).Reburied now raw written := by
  refine { kept with entry := ?_ }
  simp only [Store.zadd, Function.update_self, SortedSet.mem_entries_add]
  by_cases same : written = other
  · exact .inl (by rw [same])
  · exact .inr ⟨kept.entry, same⟩

end Reburied

/-- All due dead jobs have been retried: those of known names are on their queues, each of
them once and in order, and those of unknown names are kept for later. -/
structure RetriedAll (known : List String) (now : Int64) (before after : Store) : Prop where
  gone : ∀ raw ∈ (before.zset .dead).upTo now.toInt, raw.isKnown known →
    raw ∉ (after.zset .dead).members
  queued : ∀ name ∈ known, ∃ pushed, after.list (.jobs name) = pushed ++ before.list (.jobs name) ∧
    List.Forall₂ (Revived now)
      (((before.zset .dead).upTo now.toInt).filter (RawJSON.isNamed name)) pushed.reverse
  kept : ∀ raw ∈ (before.zset .dead).upTo now.toInt, raw.isKnown known = false →
    raw ∉ (after.zset .dead).upTo now.toInt ∧ ∃ written, after.Reburied now raw written

/-- A script has gone through some dead payloads, one after the other, and requeued a number
of them. -/
inductive Swept (known : List String) (now : Int64) :
    Store → List RawJSON → ℕ → Store → Prop
  | done {store : Store} : Swept known now store [] 0 store
  | revived {store next : Store} {raw pushed : RawJSON} {name : String} {raws : List RawJSON}
      {count : ℕ} : raw.textField "name" = some name → name ≠ "" → name ∈ known →
      raw.revived now = some pushed →
      Swept known now ((store.zrem .dead raw).lpush (.jobs name) pushed) raws count next →
      Swept known now store (raw :: raws) (count + 1) next
  | reburied {store next : Store} {raw written : RawJSON} {name : String} {raws : List RawJSON}
      {count : ℕ} : raw.textField "name" = some name → name ≠ "" → name ∉ known →
      raw.reburied now = some written →
      Swept known now ((store.zrem .dead raw).zadd .dead (now.toInt + 5) written) raws count next →
      Swept known now store (raw :: raws) count next

variable {known : List String} {now : Int64} {store next : Store} {raw : RawJSON}
  {raws : List RawJSON} {count : ℕ}

/-- What a script that returns does with a dead job. -/
theorem Swept.requeueDeadJob {lua : Json} {more : ℕ} {last : Store}
    (named : raw.HasName) (decoded : Cjson.decode raw = some lua)
    (requeued : store.requeueDeadJob known now raw lua = (next, some more))
    (rest : Swept known now next raws count last) :
    Swept known now store (raw :: raws) (count + more) last := by
  obtain ⟨name, named, nonempty⟩ := named
  have queue : ∀ {queue}, (Cjson.index "name" lua).bind Cjson.concat = some queue →
      queue = name := by
    intro queue joined
    obtain ⟨field, indexed, concatenated⟩ := Option.bind_eq_some_iff.mp joined
    exact Cjson.concat_index_eq (Cjson.textField_decode decoded named) indexed concatenated
  have outcome := store.requeueDeadJob_cases known now raw lua
  rw [requeued] at outcome
  cases outcome with
  | revived indexed listed encoded =>
      obtain rfl := queue indexed
      refine .revived named nonempty listed ?_ rest
      rw [RawJSON.revived, decoded, Option.bind_some, encoded]
  | kept indexed unlisted encoded =>
      obtain rfl := queue indexed
      refine .reburied named nonempty unlisted ?_ rest
      rw [RawJSON.reburied, decoded, Option.bind_some, encoded]

/-- A script that returns has gone through its batch. -/
theorem swept_requeueLoop {start total : ℕ}
    (named : ∀ raw ∈ raws, raw.HasName)
    (returned : requeueLoop known now (fun _ => some true) raws store start =
      (next, some total)) :
    ∃ count, total = start + count ∧ Swept known now store raws count next := by
  induction raws generalizing store start with
  | nil =>
      cases returned
      exact ⟨0, rfl, .done⟩
  | cons raw raws ih =>
      rw [List.forall_mem_cons] at named
      unfold requeueLoop at returned
      split at returned
      · cases returned
      · next lua decoded =>
          simp only at returned
          split at returned
          · next after more requeued =>
              obtain ⟨count, rfl, rest⟩ := ih named.2 returned
              exact ⟨count + more, by omega, rest.requeueDeadJob named.1 decoded requeued⟩
          · cases returned

/-- What a script writes for the payloads of unknown names among some. -/
def rewritings (known : List String) (now : Int64) (raws : List RawJSON) : List RawJSON :=
  (raws.filter fun raw => !raw.isKnown known).filterMap (RawJSON.reburied now)

namespace Swept

variable {name : String} {written : RawJSON}

/-- The payloads of known names are counted. -/
theorem count_eq (swept : Swept known now store raws count next) :
    count = raws.countP (RawJSON.isKnown known) := by
  induction swept with
  | done => rfl
  | revived named _ listed _ _ ih =>
      rw [List.countP_cons_of_pos (by simp [RawJSON.isKnown_of_named named, listed]), ih]
  | reburied named _ unlisted _ _ ih =>
      rw [List.countP_cons_of_neg (by simp [RawJSON.isKnown_of_named named, unlisted]), ih]

/-- The script counts none if and only if it has gone through no known name. -/
theorem count_eq_zero_iff (swept : Swept known now store raws count next) :
    count = 0 ↔ raws.any (RawJSON.isKnown known) = false := by
  rw [swept.count_eq, List.countP_eq_zero, List.any_eq_false]

/-- The payloads that the script has gone through or written are no longer due. -/
theorem upTo_eq (swept : Swept known now store raws count next) :
    (next.zset .dead).upTo now.toInt = ((store.zset .dead).upTo now.toInt).filter fun other =>
      other ∉ raws ∧ other ∉ rewritings known now raws := by
  induction swept with
  | done => simp [rewritings]
  | @revived store next raw pushed name raws count named _ listed _ _ ih =>
      have known : raw.isKnown known := by simp [RawJSON.isKnown_of_named named, listed]
      rw [ih]
      simp only [lpush, zrem, Function.update_self, SortedSet.upTo_erase, List.filter_filter]
      apply List.filter_congr
      intro other _
      simp only [rewritings, List.filter_cons, known, List.mem_cons, not_or]
      grind
  | @reburied store next raw written name raws count named _ unlisted rewritten _ ih =>
      have unknown : raw.isKnown known = false := by
        simp [RawJSON.isKnown_of_named named, unlisted]
      rw [ih]
      simp only [zadd, zrem, Function.update_self, SortedSet.upTo_erase, List.filter_filter,
        SortedSet.upTo_add_of_lt _ _ (show now.toInt < now.toInt + 5 by omega)]
      apply List.filter_congr
      intro other _
      simp only [rewritings, List.filter_cons, unknown, List.mem_cons, not_or]
      grind

/-- The payloads of a known name are pushed on its queue, in order. -/
theorem queued (swept : Swept known now store raws count next) (name : String)
    (listed : name ∈ known) :
    ∃ pushed, next.list (.jobs name) = pushed ++ store.list (.jobs name) ∧
      List.Forall₂ (fun raw pushed => raw.revived now = some pushed)
        (raws.filter (RawJSON.isNamed name)) pushed.reverse := by
  induction swept with
  | done => exact ⟨[], rfl, .nil⟩
  | @revived store next raw pushed queue raws count named _ _ revived _ ih =>
      obtain ⟨later, queued, pairs⟩ := ih
      by_cases own : queue = name
      · subst own
        refine ⟨later ++ [pushed], ?_, ?_⟩
        · rw [queued, list_lpush_self, List.append_assoc]
          rfl
        · rw [List.filter_cons_of_pos (show RawJSON.isNamed queue raw from decide_eq_true named),
            List.reverse_append]
          exact .cons revived pairs
      · refine ⟨later, ?_, ?_⟩
        · rw [queued, list_lpush_of_ne (by simpa using Ne.symm own)]
          rfl
        · rwa [List.filter_cons_of_neg (by simpa [RawJSON.isNamed, named] using own)]
  | @reburied store next raw written queue raws count named _ unlisted _ _ ih =>
      obtain ⟨later, queued, pairs⟩ := ih
      refine ⟨later, queued, ?_⟩
      rwa [List.filter_cons_of_neg]
      simp only [RawJSON.isNamed, named, Option.some.injEq, decide_eq_true_eq]
      rintro rfl
      exact unlisted listed

/-- A payload of a known name that the script has gone through is gone. -/
theorem gone (swept : Swept known now store raws count next) (listed : raw.isKnown known)
    (absent : raw ∈ raws ∨ raw ∉ (store.zset .dead).members) :
    raw ∉ (next.zset .dead).members := by
  induction swept with
  | done => exact absent.resolve_left List.not_mem_nil
  | @revived store next first pushed queue raws count named _ _ revived _ ih =>
      apply ih
      simp only [lpush, zrem, Function.update_self, SortedSet.mem_erase]
      grind
  | @reburied store next first written queue raws count named _ unlisted rewritten _ ih =>
      apply ih
      simp only [zadd, zrem, Function.update_self, SortedSet.mem_erase, SortedSet.mem_add]
      have other : raw ≠ first := by
        rintro rfl
        rw [RawJSON.isKnown_of_named named] at listed
        exact unlisted (of_decide_eq_true listed)
      have new : raw ≠ written := by
        rintro rfl
        rw [RawJSON.isKnown_of_named (RawJSON.textField_reburied rewritten named)] at listed
        exact unlisted (of_decide_eq_true listed)
      grind

/-- A payload of an unknown name that the script has gone through, or has written, is kept
for later, and stays so. -/
theorem reburied_of_mem (swept : Swept known now store raws count next)
    (named : raw.textField "name" = some name) (unlisted : name ∉ known)
    (found : raw ∈ raws ∨ raw ∈ rewritings known now raws ∨
      ∃ written, store.Reburied now raw written) :
    ∃ written, next.Reburied now raw written := by
  induction swept with
  | done => exact (found.resolve_left List.not_mem_nil).resolve_left List.not_mem_nil
  | @revived store next first pushed queue raws count own _ listed _ _ ih =>
      have other : ∀ written, written.textField "name" = some name → written ≠ first := by
        rintro written same rfl
        rw [same] at own
        exact unlisted (Option.some.inj own ▸ listed)
      apply ih
      rcases found with mine | written | ⟨written, kept⟩
      · exact .inl ((List.mem_cons.mp mine).resolve_left (other raw named))
      · rw [rewritings, List.filter_cons_of_neg (by simp [RawJSON.isKnown_of_named own, listed])]
          at written
        exact .inr (.inl written)
      · have apart := other written (RawJSON.textField_rewritten kept.rewritten named)
        exact .inr (.inr ⟨written, (kept.zrem apart).lpush _ _⟩)
  | @reburied store next first written queue raws count own nonempty unlisted' rewritten _ ih =>
      obtain ⟨err, failedAt⟩ := RawJSON.fields_reburied rewritten ⟨queue, own, nonempty⟩
      have entry : (now.toInt + 5, written) ∈
          (((store.zrem .dead first).zadd .dead (now.toInt + 5) written).zset .dead).entries := by
        simp only [zadd, Function.update_self, SortedSet.mem_entries_add, true_or]
      apply ih
      rcases found with mine | new | ⟨before, kept⟩
      · rcases List.mem_cons.mp mine with rfl | later
        · exact .inr (.inr ⟨written, entry, .single rewritten, err, failedAt⟩)
        · exact .inl later
      · rw [rewritings, List.filter_cons_of_pos (by simp [RawJSON.isKnown_of_named own, unlisted']),
          List.filterMap_cons_some rewritten] at new
        rcases List.mem_cons.mp new with rfl | later
        · exact .inr (.inr ⟨raw, entry, .refl, err, failedAt⟩)
        · exact .inr (.inl later)
      · by_cases same : before = first
        · subst same
          exact .inr (.inr ⟨written, entry, kept.rewritten.tail rewritten, err, failedAt⟩)
        · exact .inr (.inr ⟨before, (kept.zrem same).zadd _⟩)

/-- All dead jobs still have names. -/
theorem hasName (swept : Swept known now store raws count next)
    (named : ∀ raw ∈ (store.zset .dead).members, raw.HasName) :
    ∀ raw ∈ (next.zset .dead).members, raw.HasName := by
  induction swept with
  | done => exact named
  | @revived store next first pushed queue raws count own _ _ _ _ ih =>
      apply ih
      intro raw member
      simp only [lpush, zrem, Function.update_self, SortedSet.mem_erase] at member
      exact named raw member.2
  | @reburied store next first written queue raws count own nonempty _ rewritten _ ih =>
      apply ih
      intro raw member
      simp only [zadd, zrem, Function.update_self, SortedSet.mem_erase, SortedSet.mem_add] at member
      rcases member with rfl | ⟨-, present⟩
      · exact ⟨queue, RawJSON.textField_reburied rewritten own, nonempty⟩
      · exact named raw present

end Swept

/-- The time of a requeued dead job. -/
theorem field_revived_time {pushed : RawJSON} (revived : raw.revived now = some pushed)
    (named : raw.HasName) : pushed.field "t" = some (Cjson.encodeValue (Cjson.toNumber now)) := by
  obtain ⟨lua, decoded, encoded⟩ := Option.bind_eq_some_iff.mp revived
  obtain ⟨name, named, nonempty⟩ := named
  have object := Cjson.textField_decode decoded named
  cases lua with
  | obj fields =>
      rw [Cjson.field_encode encoded, revivedJob, Cjson.field_removeField (by decide),
        Cjson.field_removeField (by decide), Cjson.field_removeField (by decide)]
      simp only [Cjson.setField, Json.field, Json.getField_setField_self, Option.map_some]
  | null =>
      obtain rfl := Option.some.inj object
      exact (nonempty rfl).elim
  | _ => cases object

/-- A requeued dead job is enqueued now if and only if the time is short. -/
theorem revived_iff {pushed : RawJSON} (revived : raw.revived now = some pushed)
    (named : raw.HasName) : Revived now raw pushed ↔ Cjson.Short now := by
  have time := field_revived_time revived named
  constructor
  · intro enqueued
    have read := enqueued.time
    rw [time, Cjson.decodeInt64_detour] at read
    by_contra long
    rw [if_neg long] at read
    cases read
  · intro short
    obtain ⟨lua, decoded, encoded⟩ := Option.bind_eq_some_iff.mp revived
    constructor
    · rw [time, Cjson.decodeInt64_detour, if_pos short]
    · simp [Cjson.field_encode encoded, revivedJob, Cjson.field_removeField,
        Cjson.field_removeField_self]
    · intro key other
      simp only [List.mem_cons, List.not_mem_nil, or_false, not_or] at other
      rw [Cjson.field_encode encoded, revivedJob, Cjson.field_removeField other.2.2.1,
        Cjson.field_removeField other.2.2.2, Cjson.field_removeField other.2.1,
        Cjson.field_setField other.1, Cjson.field_decode decoded, Option.map_map]
      rfl

/-- The due payloads that are left after a batch of the first thousand. -/
def leftover (known : List String) (now : Int64) (due : List RawJSON) : List RawJSON :=
  (due.drop 1000).filter fun raw => raw ∉ rewritings known now (due.take 1000)

theorem length_leftover_le (due : List RawJSON) :
    (leftover known now due).length ≤ due.length - 1000 := by
  rw [← List.length_drop]
  exact List.length_filter_le _ _

/-- A sweep in batches of a thousand reaches all due payloads: every batch but the last one
has a known name. -/
inductive Sweeps (known : List String) (now : Int64) : List RawJSON → Prop
  | last {due : List RawJSON} : leftover known now due = [] → Sweeps known now due
  | more {due : List RawJSON} : (due.take 1000).any (RawJSON.isKnown known) →
      Sweeps known now (leftover known now due) → Sweeps known now due

/-- A sweep reaches the due payloads at once if nothing is left, and otherwise if the batch has
a known name and the sweep reaches what is left. -/
theorem sweeps_iff {due : List RawJSON} :
    Sweeps known now due ↔ leftover known now due = [] ∨
      (due.take 1000).any (RawJSON.isKnown known) ∧ Sweeps known now (leftover known now due) := by
  constructor
  · intro sweeps
    cases sweeps with
    | last nothing => exact .inl nothing
    | more listed rest => exact .inr ⟨listed, rest⟩
  · rintro (nothing | ⟨listed, rest⟩)
    · exact .last nothing
    · exact .more listed rest

theorem sweeps_nil : Sweeps known now [] := .last rfl

/-- A payload that is no longer due has been in the batch or has been written by it. -/
theorem mem_batch_of_not_mem_leftover {due : List RawJSON} (member : raw ∈ due)
    (settled : raw ∉ leftover known now due) :
    raw ∈ due.take 1000 ∨ raw ∈ rewritings known now (due.take 1000) := by
  rw [← List.take_append_drop 1000 due, List.mem_append] at member
  refine member.imp_right fun behind => ?_
  by_contra unwritten
  exact settled (List.mem_filter.mpr ⟨behind, decide_eq_true unwritten⟩)

/-- Payloads of known names are not among those that a script writes. -/
theorem not_mem_rewritings (named : ∀ raw ∈ raws, raw.HasName) (listed : raw.isKnown known) :
    raw ∉ rewritings known now raws := by
  intro written
  obtain ⟨source, member, rewritten⟩ := List.mem_filterMap.mp written
  obtain ⟨present, unlisted⟩ := List.mem_filter.mp member
  obtain ⟨name, named, -⟩ := named source present
  rw [RawJSON.isKnown_of_named (RawJSON.textField_reburied rewritten named),
    ← RawJSON.isKnown_of_named named] at listed
  rw [listed] at unlisted
  cases unlisted

/-- The payloads of a known name are in the batch or left. -/
theorem filter_isNamed_leftover {due : List RawJSON} {name : String} (listed : name ∈ known)
    (named : ∀ raw ∈ due.take 1000, raw.HasName) :
    due.filter (RawJSON.isNamed name) = (due.take 1000).filter (RawJSON.isNamed name) ++
      (leftover known now due).filter (RawJSON.isNamed name) := by
  conv_lhs => rw [← List.take_append_drop 1000 due, List.filter_append]
  rw [leftover, List.filter_filter]
  congr 1
  apply List.filter_congr
  intro raw _
  cases own : raw.isNamed name with
  | false => rfl
  | true =>
      have known : raw.isKnown known := by
        rw [RawJSON.isKnown_of_named (of_decide_eq_true own)]
        exact decide_eq_true listed
      simp [not_mem_rewritings named known]

/-- What is left is due after a batch. -/
theorem Swept.upTo_eq_leftover
    (swept : Swept known now store (((store.zset .dead).upTo now.toInt).take 1000) count next) :
    (next.zset .dead).upTo now.toInt =
      leftover known now ((store.zset .dead).upTo now.toInt) := by
  have distinct := (store.zset .dead).nodup.sublist ((store.zset .dead).upTo_sublist now.toInt)
  rw [swept.upTo_eq]
  generalize (store.zset .dead).upTo now.toInt = due at distinct ⊢
  have split := List.take_append_drop 1000 due
  unfold leftover
  generalize due.take 1000 = batch at split ⊢
  generalize due.drop 1000 = rest at split ⊢
  subst split
  rw [List.nodup_append] at distinct
  have through : batch.filter (fun other => other ∉ batch ∧ other ∉ rewritings known now batch) =
      [] := by
    simp +contextual [List.filter_eq_nil_iff]
  rw [List.filter_append, through, List.nil_append]
  apply List.filter_congr
  intro raw behind
  have apart : raw ∉ batch := fun ahead => distinct.2.2 raw ahead raw behind rfl
  simp only [apart, not_false_eq_true, true_and]

/-- What some batches have done: the known names among the due payloads that are no longer due
are on their queues, and the unknown ones are kept for later. -/
structure Progress (known : List String) (now : Int64) (before after : Store) : Prop where
  due : ((after.zset .dead).upTo now.toInt).Sublist ((before.zset .dead).upTo now.toInt)
  queued : ∀ name ∈ known, ∃ requeued pushed,
    ((before.zset .dead).upTo now.toInt).filter (RawJSON.isNamed name) =
      requeued ++ ((after.zset .dead).upTo now.toInt).filter (RawJSON.isNamed name) ∧
    after.list (.jobs name) = pushed ++ before.list (.jobs name) ∧
    List.Forall₂ (fun raw pushed => raw.revived now = some pushed) requeued pushed.reverse
  gone : ∀ raw, raw.isKnown known →
    raw ∈ (before.zset .dead).upTo now.toInt ∨ raw ∉ (before.zset .dead).members →
    raw ∉ (after.zset .dead).upTo now.toInt → raw ∉ (after.zset .dead).members
  kept : ∀ raw name, raw.textField "name" = some name → name ∉ known →
    (raw ∈ (before.zset .dead).upTo now.toInt ∨ ∃ written, before.Reburied now raw written) →
    raw ∉ (after.zset .dead).upTo now.toInt → ∃ written, after.Reburied now raw written

namespace Progress

variable {before after : Store}

theorem refl (store : Store) : Progress known now store store where
  due := .refl _
  queued _ _ := ⟨[], [], rfl, rfl, .nil⟩
  gone _ _ absent settled := absent.resolve_left settled
  kept _ _ _ _ found settled := found.resolve_left settled

theorem trans {middle : Store} (first : Progress known now before middle)
    (second : Progress known now middle after) : Progress known now before after where
  due := second.due.trans first.due
  queued name listed := by
    obtain ⟨requeued, pushed, split, list, pairs⟩ := first.queued name listed
    obtain ⟨requeued', pushed', split', list', pairs'⟩ := second.queued name listed
    refine ⟨requeued ++ requeued', pushed' ++ pushed, ?_, ?_, ?_⟩
    · rw [split, split', List.append_assoc]
    · rw [list', list, List.append_assoc]
    · rw [List.reverse_append]
      exact List.rel_append pairs pairs'
  gone raw listed absent settled := by
    apply second.gone raw listed _ settled
    by_cases still : raw ∈ (middle.zset .dead).upTo now.toInt
    · exact .inl still
    · exact .inr (first.gone raw listed absent still)
  kept raw name named unlisted found settled := by
    apply second.kept raw name named unlisted _ settled
    by_cases still : raw ∈ (middle.zset .dead).upTo now.toInt
    · exact .inl still
    · exact .inr (first.kept raw name named unlisted found still)

/-- What a batch of the first thousand does. -/
theorem of_swept (named : ∀ raw ∈ (before.zset .dead).members, raw.HasName)
    (swept : Swept known now before (((before.zset .dead).upTo now.toInt).take 1000) count after) :
    Progress known now before after := by
  have named : ∀ raw ∈ ((before.zset .dead).upTo now.toInt).take 1000, raw.HasName :=
    fun raw member => named raw (SortedSet.mem_of_mem_upTo (List.mem_of_mem_take member))
  have left := swept.upTo_eq_leftover
  constructor
  · rw [left]
    exact List.filter_sublist.trans (List.drop_sublist _ _)
  · intro name listed
    obtain ⟨pushed, list, pairs⟩ := swept.queued name listed
    refine ⟨_, pushed, ?_, list, pairs⟩
    rw [left]
    exact filter_isNamed_leftover listed named
  · intro raw listed absent settled
    apply swept.gone listed
    refine absent.imp_left fun due => ?_
    rw [left] at settled
    exact (mem_batch_of_not_mem_leftover due settled).resolve_right
      (not_mem_rewritings named listed)
  · intro raw name own unlisted found settled
    apply swept.reburied_of_mem own unlisted
    rw [← or_assoc]
    refine found.imp_left fun due => ?_
    rw [left] at settled
    exact mem_batch_of_not_mem_leftover due settled

/-- When nothing is due any more, the payloads of a known name have been pushed on its
queue. -/
theorem queued_all (progress : Progress known now before after)
    (nothing : (after.zset .dead).upTo now.toInt = []) (name : String) (listed : name ∈ known) :
    ∃ pushed, after.list (.jobs name) = pushed ++ before.list (.jobs name) ∧
      List.Forall₂ (fun raw pushed => raw.revived now = some pushed)
        (((before.zset .dead).upTo now.toInt).filter (RawJSON.isNamed name)) pushed.reverse := by
  obtain ⟨requeued, pushed, split, list, pairs⟩ := progress.queued name listed
  rw [nothing, List.filter_nil, List.append_nil] at split
  exact ⟨pushed, list, split ▸ pairs⟩

end Progress

section Retried

variable {before after : Store}

/-- When all due dead jobs have been retried, nothing is due any more. -/
theorem RetriedAll.upTo_eq_nil (retried : RetriedAll known now before after)
    (progress : Progress known now before after) : (after.zset .dead).upTo now.toInt = [] := by
  rw [List.eq_nil_iff_forall_not_mem]
  intro raw still
  have due := progress.due.mem still
  cases listed : raw.isKnown known with
  | true => exact retried.gone raw due listed (SortedSet.mem_of_mem_upTo still)
  | false => exact (retried.kept raw due listed).1 still

/-- When all due dead jobs have been retried and some are on a queue, the time is short. -/
theorem RetriedAll.short (retried : RetriedAll known now before after)
    (progress : Progress known now before after)
    (named : ∀ raw ∈ (before.zset .dead).upTo now.toInt, raw.HasName)
    (some : ((before.zset .dead).upTo now.toInt).any (RawJSON.isKnown known)) :
    Cjson.Short now := by
  obtain ⟨raw, due, listed⟩ := List.any_eq_true.mp some
  obtain ⟨name, own, -⟩ := named raw due
  rw [RawJSON.isKnown_of_named own] at listed
  obtain ⟨pushed, list, enqueued⟩ := retried.queued name (of_decide_eq_true listed)
  obtain ⟨pushed', list', pairs⟩ := progress.queued_all (retried.upTo_eq_nil progress) name
    (of_decide_eq_true listed)
  obtain rfl : pushed = pushed' := List.append_cancel_right (list.symm.trans list')
  have pairs := (List.forall₂_and_left _ _).mpr
    ⟨fun raw member => named raw (List.mem_of_mem_filter member), pairs⟩
  have shorts : List.Forall₂ (fun _ _ => Cjson.Short now ∧ True) _ pushed.reverse :=
    pairs.mp
      (fun _ _ written enqueued => ⟨(revived_iff written.2 written.1).mp enqueued, trivial⟩)
      enqueued
  exact ((List.forall₂_and_left _ _).mp shorts).1 raw
    (List.mem_filter.mpr ⟨due, decide_eq_true own⟩)

/-- When nothing is due any more and the time is short if it is written, all due dead jobs have
been retried. -/
theorem Progress.retriedAll (progress : Progress known now before after)
    (nothing : (after.zset .dead).upTo now.toInt = [])
    (named : ∀ raw ∈ (before.zset .dead).upTo now.toInt, raw.HasName)
    (short : ((before.zset .dead).upTo now.toInt).any (RawJSON.isKnown known) →
      Cjson.Short now) : RetriedAll known now before after := by
  have settled : ∀ raw, raw ∉ (after.zset .dead).upTo now.toInt := by
    rw [nothing]
    exact fun _ => List.not_mem_nil
  constructor
  · intro raw due listed
    exact progress.gone raw listed (.inl due) (settled raw)
  · intro name listed
    obtain ⟨pushed, list, pairs⟩ := progress.queued_all nothing name listed
    refine ⟨pushed, list, ?_⟩
    have short : ∀ raw ∈ ((before.zset .dead).upTo now.toInt).filter (RawJSON.isNamed name),
        raw.HasName ∧ Cjson.Short now := by
      intro raw member
      have due := List.mem_of_mem_filter member
      refine ⟨named raw due, short (List.any_eq_true.mpr ⟨raw, due, ?_⟩)⟩
      rw [RawJSON.isKnown_of_named (of_decide_eq_true (List.mem_filter.mp member).2)]
      exact decide_eq_true listed
    refine ((List.forall₂_and_left _ _).mpr ⟨short, pairs⟩).imp fun raw pushed written => ?_
    exact (revived_iff written.2 written.1.1).mpr written.1.2
  · intro raw due unlisted
    obtain ⟨name, own, -⟩ := named raw due
    rw [RawJSON.isKnown_of_named own, decide_eq_false_iff_not] at unlisted
    exact ⟨settled raw, progress.kept raw name own unlisted (.inl due) (settled raw)⟩

end Retried

end Store

namespace Client

open Store

/-- The job names that a client reads. -/
def jobNames (redis : Store) : List String := inOrder redis.knownJobs

/-- Requeue dead jobs in batches of a thousand until a batch requeues none. The result says
whether no error occurred. -/
def retryAllLoop (jobNames : List String) (now : Int64) : ℕ → Store → Store × Bool
  | 0, redis => (redis, true)
  | iterations + 1, redis =>
      match redis.redisLuaRequeueAllDeadCmd jobNames now 1000 with
      | (next, none) => (next, false)
      | (next, some res) =>
          if res = 0 then (next, true) else retryAllLoop jobNames now iterations next

/-- Retry all dead jobs. -/
def retryAllDeadJobs (redis : Store) (now : Int64) : Store × Bool :=
  retryAllLoop (jobNames redis) now 1000 redis

variable {known : List String} {now : Int64} {redis after : Store}

/-- The iterations suffice for the due jobs, and end without due jobs if and only if the sweep
reaches them all. -/
theorem progress_retryAllLoop {iterations : ℕ}
    (enough : ((redis.zset .dead).upTo now.toInt).length ≤ 1000 * iterations)
    (named : ∀ raw ∈ (redis.zset .dead).members, raw.HasName)
    (returned : retryAllLoop known now iterations redis = (after, true)) :
    Progress known now redis after ∧
      ((after.zset .dead).upTo now.toInt = [] ↔
        Sweeps known now ((redis.zset .dead).upTo now.toInt)) := by
  induction iterations generalizing redis with
  | zero =>
      obtain rfl : redis = after := congrArg Prod.fst returned
      have nothing : (redis.zset .dead).upTo now.toInt = [] :=
        List.eq_nil_of_length_eq_zero (Nat.le_zero.mp enough)
      exact ⟨.refl redis, fun _ => nothing ▸ sweeps_nil, fun _ => nothing⟩
  | succ iterations ih =>
      unfold retryAllLoop at returned
      split at returned
      · cases returned
      · next next res executed =>
          have batch : ∀ raw ∈ ((redis.zset .dead).upTo now.toInt).take 1000, raw.HasName :=
            fun raw member => named raw (SortedSet.mem_of_mem_upTo (List.mem_of_mem_take member))
          obtain ⟨count, counted, swept⟩ := swept_requeueLoop batch executed
          rw [Nat.zero_add] at counted
          subst counted
          have first := Progress.of_swept named swept
          have left := swept.upTo_eq_leftover
          rw [sweeps_iff, ← left]
          split at returned
          · next none =>
              cases returned
              rw [swept.count_eq_zero_iff] at none
              simp only [none, Bool.false_eq_true, false_and, or_false]
              exact ⟨first, trivial⟩
          · next some =>
              rw [swept.count_eq_zero_iff, Bool.not_eq_false] at some
              have shorter : ((next.zset .dead).upTo now.toInt).length ≤ 1000 * iterations := by
                rw [left]
                refine (length_leftover_le _).trans ?_
                omega
              obtain ⟨rest, reached⟩ := ih shorter (swept.hasName named) returned
              refine ⟨first.trans rest, reached.trans ⟨fun all => .inr ⟨some, all⟩, ?_⟩⟩
              rintro (nothing | ⟨-, all⟩)
              · rw [nothing]
                exact sweeps_nil
              · exact all

/-- All due dead jobs are retried if and only if every batch but the last one has a known name
and, if a due job has one, the time is short. -/
theorem retriedAll_iff (small : (redis.zset .dead).members.length < 1000000)
    (named : ∀ raw ∈ (redis.zset .dead).members, raw.HasName)
    (returned : retryAllDeadJobs redis now = (after, true)) :
    RetriedAll (jobNames redis) now redis after ↔
      Sweeps (jobNames redis) now ((redis.zset .dead).upTo now.toInt) ∧
        (((redis.zset .dead).upTo now.toInt).any (RawJSON.isKnown (jobNames redis)) →
          Cjson.Short now) := by
  have enough := ((redis.zset .dead).upTo_sublist now.toInt).length_le
  obtain ⟨progress, reached⟩ := progress_retryAllLoop (by omega) named returned
  have dueNamed : ∀ raw ∈ (redis.zset .dead).upTo now.toInt, raw.HasName := fun raw due =>
    named raw (SortedSet.mem_of_mem_upTo due)
  rw [← reached]
  constructor
  · intro retried
    exact ⟨retried.upTo_eq_nil progress, retried.short progress dueNamed⟩
  · rintro ⟨nothing, short⟩
    exact progress.retriedAll nothing dueNamed short

/-- A dead job of a known name and one of an unknown name. -/
def twoDead : Store :=
  { System.emptyState.redis with
    zset := Function.update (fun _ => .empty) .dead
      ((SortedSet.empty.add 1 (.json (Enqueuer.plainJob "send" "1" 0 none).serialize)).add 2
        (.json (Enqueuer.plainJob "gone" "2" 0 none).serialize))
    knownJobs := {"send"} }

theorem jobNames_twoDead : jobNames twoDead = ["send"] := Finset.sort_singleton _ _

theorem retriedAll_two_dead :
    (retryAllDeadJobs twoDead 10).2 = true ∧
      RetriedAll (jobNames twoDead) 10 twoDead (retryAllDeadJobs twoDead 10).1 := by
  have named : ∀ raw ∈ (twoDead.zset .dead).members, raw.HasName := by
    simp only [twoDead, Function.update_self, SortedSet.mem_add, SortedSet.members_empty,
      List.not_mem_nil, or_false, forall_eq_or_imp, forall_eq]
    exact ⟨⟨"gone", by decide +kernel, by decide⟩, "send", by decide +kernel, by decide⟩
  have returned : (retryAllDeadJobs twoDead 10).2 = true := by
    rw [retryAllDeadJobs, jobNames_twoDead]
    decide +kernel
  have small : (twoDead.zset .dead).members.length < 1000000 := by decide +kernel
  refine ⟨returned, (retriedAll_iff small named (Prod.ext rfl returned)).mpr ⟨.last rfl, ?_⟩⟩
  intro _
  decide +kernel

/-- A script returns on payloads that it can decode and put back. -/
theorem requeueLoop_returns {raws : List RawJSON}
    (sturdy : ∀ raw ∈ raws, raw.Sturdy ∧ (Cjson.decode raw).isSome) (redis : Store) (start : ℕ) :
    ∃ next total, requeueLoop known now (fun _ => some true) raws redis start =
      (next, some total) := by
  induction raws generalizing redis start with
  | nil => exact ⟨_, _, rfl⟩
  | cons raw raws ih =>
      rw [List.forall_mem_cons] at sturdy
      obtain ⟨lua, decoded⟩ := Option.isSome_iff_exists.mp sturdy.1.2
      obtain ⟨name, -, ⟨-, pushed, -, requeued⟩ | ⟨-, written, -, requeued⟩⟩ :=
        requeueDeadJob_of_sturdy sturdy.1.1 decoded redis known now
      · simp only [requeueLoop, decoded, requeued]
        exact ih sturdy.2 _ _
      · simp only [requeueLoop, decoded, requeued]
        exact ih sturdy.2 _ _

/-- A batch without a known name ends the sweep. -/
theorem retryAllDeadJobs_of_unknown
    (sturdy : ∀ raw ∈ ((redis.zset .dead).upTo now.toInt).take 1000,
      raw.Sturdy ∧ (Cjson.decode raw).isSome)
    (unknown : (((redis.zset .dead).upTo now.toInt).take 1000).countP
      (RawJSON.isKnown (jobNames redis)) = 0) :
    (retryAllDeadJobs redis now).2 = true ∧
      ((retryAllDeadJobs redis now).1.zset .dead).upTo now.toInt =
        leftover (jobNames redis) now ((redis.zset .dead).upTo now.toInt) := by
  obtain ⟨next, total, executed⟩ := @requeueLoop_returns (jobNames redis) now _ sturdy redis 0
  obtain ⟨count, rfl, swept⟩ := swept_requeueLoop (fun raw member => (sturdy raw member).1.named)
    executed
  rw [swept.count_eq, unknown] at executed
  have ended : retryAllDeadJobs redis now = (next, true) := by
    rw [retryAllDeadJobs, retryAllLoop, redisLuaRequeueAllDeadCmd, executed]
    rfl
  rw [ended]
  exact ⟨rfl, swept.upTo_eq_leftover⟩

/-- Dead jobs of which the first thousand have an unknown name. -/
def crowd (index : ℕ) : RawJSON :=
  .json (Enqueuer.plainJob (if index < 1000 then "gone" else "send")
    (String.ofList (List.replicate index 'x')) 0 none).serialize

theorem textField_crowd (index : ℕ) :
    (crowd index).textField "name" = some (if index < 1000 then "gone" else "send") :=
  Job.textField_serialize_name _

theorem crowd_injective : Function.Injective crowd := by
  intro first second same
  have ids := congrArg (RawJSON.textField "id") same
  simp only [crowd, RawJSON.textField, Job.textField_serialize_id, Enqueuer.plainJob] at ids
  simpa using congrArg String.length (Option.some.inj ids)

theorem sturdy_crowd (index : ℕ) :
    (crowd index).Sturdy ∧ (Cjson.decode (crowd index)).isSome := by
  have fit : Job.FitArgs none := by decide
  refine ⟨Job.Sturdy.serialize ⟨?_, fit.1⟩, ?_⟩
  · simp only [Enqueuer.plainJob]
    split <;> decide
  · rw [crowd, Cjson.decode, if_pos (Job.depth_serialize fit)]
    rfl

/-- The first of these jobs, with ascending scores. -/
def crowdedSet (count : ℕ) : SortedSet RawJSON where
  entries := (List.range count).map fun index : ℕ => ((index : ℤ), crowd index)
  sorted := by
    refine List.Pairwise.map _ (fun first second below => .inl ?_) List.pairwise_lt_range
    exact Int.ofNat_lt.mpr below
  nodup := by
    rw [List.map_map]
    exact List.nodup_range.map crowd_injective

theorem members_crowdedSet (count : ℕ) :
    (crowdedSet count).members = (List.range count).map crowd :=
  List.map_map

theorem upTo_crowdedSet (count : ℕ) :
    (crowdedSet count).upTo count = (List.range count).map crowd := by
  rw [SortedSet.upTo, crowdedSet, List.filter_eq_self.mpr, List.map_map]
  · rfl
  · intro entry member
    obtain ⟨index, below, rfl⟩ := List.mem_map.mp member
    exact decide_eq_true (Int.ofNat_le.mpr (List.mem_range.mp below).le)

/-- A thousand dead jobs of an unknown name in front of one of a known name. -/
def crowded : Store :=
  { System.emptyState.redis with
    zset := Function.update (fun _ => .empty) .dead (crowdedSet (1000 + 1))
    knownJobs := {"send"} }

theorem jobNames_crowded : jobNames crowded = ["send"] := Finset.sort_singleton _ _

theorem members_crowded : (crowded.zset .dead).members = (List.range (1000 + 1)).map crowd :=
  members_crowdedSet (1000 + 1)

theorem upTo_crowded : (crowded.zset .dead).upTo (1001 : Int64).toInt =
    (List.range 1000).map crowd ++ [crowd 1000] := by
  have due := upTo_crowdedSet (1000 + 1)
  rw [List.range_succ, List.map_append, List.map_singleton] at due
  exact due

/-- All thousand and one jobs are due, and the one of the known name is still among the dead
jobs after all have been retried. -/
theorem known_job_left :
    (crowded.zset .dead).members.length < 1000000 ∧
      (∀ raw ∈ (crowded.zset .dead).members, raw.HasName) ∧
      (retryAllDeadJobs crowded 1001).2 = true ∧
      crowd 1000 ∈ (crowded.zset .dead).upTo (1001 : Int64).toInt ∧
      (crowd 1000).isKnown (jobNames crowded) ∧
      crowd 1000 ∈ ((retryAllDeadJobs crowded 1001).1.zset .dead).members := by
  have full : ((List.range 1000).map crowd).length = 1000 := by
    rw [List.length_map, List.length_range]
  have batch : ((crowded.zset .dead).upTo (1001 : Int64).toInt).take 1000 =
      (List.range 1000).map crowd := by
    rw [upTo_crowded, List.take_left' full]
  have behind : ((crowded.zset .dead).upTo (1001 : Int64).toInt).drop 1000 = [crowd 1000] := by
    rw [upTo_crowded, List.drop_left' full]
  have sturdy : ∀ raw ∈ ((crowded.zset .dead).upTo (1001 : Int64).toInt).take 1000,
      raw.Sturdy ∧ (Cjson.decode raw).isSome := by
    rw [batch, List.forall_mem_map]
    exact fun index _ => sturdy_crowd index
  have unknown : (((crowded.zset .dead).upTo (1001 : Int64).toInt).take 1000).countP
      (RawJSON.isKnown (jobNames crowded)) = 0 := by
    rw [batch, List.countP_eq_zero, List.forall_mem_map, jobNames_crowded]
    intro index below
    rw [RawJSON.isKnown_of_named (textField_crowd index), if_pos (List.mem_range.mp below)]
    decide
  have listed : (crowd 1000).isKnown (jobNames crowded) := by
    rw [jobNames_crowded, RawJSON.isKnown_of_named (textField_crowd 1000)]
    decide
  obtain ⟨returned, left⟩ := retryAllDeadJobs_of_unknown sturdy unknown
  have still : crowd 1000 ∈ leftover (jobNames crowded) 1001
      ((crowded.zset .dead).upTo (1001 : Int64).toInt) := by
    rw [leftover, List.mem_filter, behind]
    refine ⟨List.mem_singleton_self _, decide_eq_true (not_mem_rewritings ?_ listed)⟩
    exact fun raw member => (sturdy raw member).1.named
  rw [← left] at still
  refine ⟨?_, ?_, returned, ?_, listed, SortedSet.mem_of_mem_upTo still⟩
  · rw [members_crowded, List.length_map, List.length_range]
    decide
  · rw [members_crowded, List.forall_mem_map]
    exact fun index _ => (sturdy_crowd index).1.named
  · rw [upTo_crowded]
    exact List.mem_append_right _ (List.mem_singleton_self _)

end Client
