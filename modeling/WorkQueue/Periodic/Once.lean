import WorkQueue.Periodic.Enqueuer
import WorkQueue.System.Scheduled

/-! # Every occurrence is moved at most once

The enqueuers of several pools add the same occurrence with the same bytes, so that it is
scheduled at most once at a time. Once a requeuer has moved it to its queue, nothing reminds
of it: an enqueuer that has read the clock long ago may add it again. If every occurrence is
added before its time, this does not happen, because it is moved only after its time
(`Periodic.moved_at_most_once`).
-/

namespace Periodic

/-- The bytes of an occurrence determine its time. -/
theorem epoch_of_payload {name spec name' spec' : String} {epoch epoch' : Int64}
    (same : payload name spec epoch = payload name' spec' epoch') : epoch = epoch' := by
  have times := congrArg (RawJSON.field "t") same
  change Json.getField "t" (Job.fields _) = Json.getField "t" (Job.fields _) at times
  rw [Job.getField_t, Job.getField_t] at times
  simp only [Option.some.injEq, Json.num.injEq, JsonNumber.int.injEq] at times
  exact Int64.toInt_inj.mp times

/-- The requeuers read the common clock, clients do not interfere, and the identifiers that
enqueuers generate are not those of occurrences. -/
def Clocked (state : Whole) : WholeEvent → Prop
  | .base (.pool _ (.requeue .scheduled now)) => now = state.clock
  | .base (.client _) => False
  | .base (.enqueuer call) => ∀ id ∈ call.jobID?, ¬ "periodic:".toList <+: id.toList
  | _ => True

instance (state : Whole) (event : WholeEvent) : Decidable (Clocked state event) := by
  unfold Clocked
  split <;> infer_instance

/-- The time of the occurrence that a step adds. -/
def addition? (state : Whole) : WholeEvent → Option Int64
  | .periodic id (.zadd _) =>
      match state.enqueuers id with
      | .enqueuing _ _ _ t => some (Int64.ofInt t)
      | _ => none
  | _ => none

/-- Every occurrence is added before its time. -/
def Timely (state : Whole) (event : WholeEvent) : Prop :=
  Clocked state event ∧ ∀ epoch ∈ addition? state event, state.clock < epoch

-- The search for an instance may find the one that tries all machine integers.
instance (state : Whole) (event : WholeEvent) : Decidable (Timely state event) :=
  @instDecidableAnd _ _ inferInstance (Option.decidableForallMem _)

/-- Whether a step moves a payload from the scheduled jobs to its queue. -/
def moves (deployment : PeriodicDeployment) (raw : RawJSON) (state : Whole) : WholeEvent → Bool
  | .base (.pool id (.requeue .scheduled now)) =>
      ((state.base.redis.zset .scheduled).upTo now.toInt).head? = some raw &&
        (state.base.redis.redisLuaZremLpushCmd .scheduled (deployment.pool id).names now).2 = .ok
  | _ => false

/-- Count the moves of a payload. -/
def countMoves (deployment : PeriodicDeployment) (raw : RawJSON) (count : ℕ) (state : Whole)
    (event : WholeEvent) (_ : Whole) : ℕ :=
  if moves deployment raw state event then count + 1 else count

/-- An occurrence is scheduled for its time, and once it has been moved its time has come and
it is not scheduled again. -/
structure Once (raw : RawJSON) (epoch : Int64) (state : Whole) (count : ℕ) : Prop where
  score : ∀ entry ∈ (state.base.redis.zset .scheduled).entries, entry.2 = raw →
    entry.1 = epoch.toInt
  count : count = 0 ∨ count = 1 ∧ epoch.toInt ≤ state.clock.toInt ∧
    ∀ entry ∈ (state.base.redis.zset .scheduled).entries, entry.2 ≠ raw

namespace Once

variable {deployment : PeriodicDeployment} {raw : RawJSON} {epoch : Int64} {state next : Whole}
  {count : ℕ}

/-- A step that schedules nothing new under the bytes keeps this. -/
theorem shrink (once : Once raw epoch state count)
    (subset : ∀ entry ∈ (next.base.redis.zset .scheduled).entries, entry.2 = raw →
      entry ∈ (state.base.redis.zset .scheduled).entries)
    (later : state.clock.toInt ≤ next.clock.toInt) : Once raw epoch next count := by
  refine ⟨fun entry member same => once.score entry (subset entry member same) same, ?_⟩
  rcases once.count with unmoved | ⟨moved, passed, absent⟩
  · exact .inl unmoved
  · refine .inr ⟨moved, passed.trans later, fun entry member same => ?_⟩
    exact absent entry (subset entry member same) same

/-- An occurrence that is due is moved for the first time. -/
theorem requeue (once : Once raw epoch state count) {names : List String} {base : System.State}
    (after : base.redis = (state.base.redis.redisLuaZremLpushCmd .scheduled names state.clock).1) :
    Once raw epoch { state with base := base }
      (if ((state.base.redis.zset .scheduled).upTo state.clock.toInt).head? = some raw ∧
          (state.base.redis.redisLuaZremLpushCmd .scheduled names state.clock).2 = .ok then
        count + 1 else count) := by
  rcases state.base.redis.zset_redisLuaZremLpushCmd_self names state.clock
      (show ZSetKey.scheduled ≠ .dead by decide) with ⟨same, failed⟩ | ⟨found, due, taken⟩
  · rw [if_neg fun moved => failed moved.2]
    refine once.shrink (fun entry member _ => ?_) le_rfl
    rw [after, same] at member
    exact member
  · have erased : ∀ entry ∈ (base.redis.zset .scheduled).entries,
        entry ∈ (state.base.redis.zset .scheduled).entries ∧ entry.2 ≠ found := by
      intro entry member
      rw [after, taken, SortedSet.erase, List.mem_filter, decide_eq_true_eq] at member
      exact member
    split
    · next moved =>
        obtain rfl : found = raw := Option.some.inj (due.symm.trans moved.1)
        obtain ⟨entry, member, rfl⟩ := List.mem_map.mp (List.mem_of_mem_head? due)
        obtain ⟨scheduled, passed⟩ := List.mem_filter.mp member
        have score := once.score entry scheduled rfl
        refine ⟨fun other present same => ((erased other present).2 same).elim, .inr ⟨?_, ?_, ?_⟩⟩
        · rcases once.count with unmoved | ⟨-, -, absent⟩
          · rw [unmoved]
          · exact (absent entry scheduled rfl).elim
        · rw [← score]
          exact of_decide_eq_true passed
        · exact fun other present => (erased other present).2
    · exact once.shrink (fun entry member _ => (erased entry member).1) le_rfl

/-- An occurrence that is added before its time has not been moved. -/
theorem add (once : Once raw epoch state count) {name spec : String} {t : Int64}
    {last : Option Int64} {enqueuers : PoolID → State}
    (determined : payload name spec t = raw → t = epoch) (early : state.clock < t) :
    Once raw epoch
      { base := { state.base with
          redis := Enqueuer.execute deployment.ns state.base.redis (occurrence name spec t) }
        clock := state.clock, last := last, enqueuers := enqueuers } count := by
  have entries : ∀ entry, entry ∈ ((Enqueuer.execute deployment.ns state.base.redis
      (occurrence name spec t)).zset .scheduled).entries ↔
        entry = (t.toInt, payload name spec t) ∨
          entry ∈ (state.base.redis.zset .scheduled).entries ∧ entry.2 ≠ payload name spec t := by
    intro entry
    rw [occurrence, Enqueuer.execute, Store.zset_zadd_self, SortedSet.mem_entries_add]
    rfl
  by_cases own : payload name spec t = raw
  · obtain rfl := determined own
    refine ⟨fun entry member same => ?_, ?_⟩
    · rcases (entries entry).mp member with rfl | ⟨old, -⟩
      · rfl
      · exact once.score entry old same
    · rcases once.count with unmoved | ⟨-, passed, -⟩
      · exact .inl unmoved
      · have before : state.clock.toInt < t.toInt := Int64.lt_iff_toInt_lt.mp early
        omega
  · refine once.shrink (fun entry member same => ?_) le_rfl
    rcases (entries entry).mp member with rfl | ⟨old, -⟩
    · exact (own same).elim
    · exact old

/-- A step of the system within the scope moves an occurrence at most for the first time. -/
theorem base_step {name spec : String} (once : Once (payload name spec epoch) epoch state count)
    {event : System.Event} {base : System.State} (clocked : Clocked state (.base event))
    (moved : System.step deployment.toDeployment state.base event = some base) :
    Once (payload name spec epoch) epoch { state with base := base }
      (countMoves deployment (payload name spec epoch) count state (.base event)
        { state with base := base }) := by
  have unchanged : base.redis.zset .scheduled = state.base.redis.zset .scheduled →
      Once (payload name spec epoch) epoch { state with base := base } count := by
    intro same
    refine once.shrink (fun entry member _ => ?_) le_rfl
    rw [same] at member
    exact member
  cases event with
  | pool id poolEvent =>
      obtain ⟨pool, -, stepped⟩ := System.step_pool moved
      by_cases requeues : ∃ now, poolEvent = .requeue .scheduled now
      · obtain ⟨now, rfl⟩ := requeues
        obtain rfl : now = state.clock := clocked
        have after : base.redis = (state.base.redis.redisLuaZremLpushCmd .scheduled
            (deployment.pool id).names state.clock).1 := by
          generalize base.redis = redis at stepped
          cases stepped with
          | requeued => rfl
        have counted := once.requeue after
        simpa only [countMoves, moves, Bool.and_eq_true, decide_eq_true_eq] using counted
      · have quiet : moves deployment (payload name spec epoch) state
            (.base (.pool id poolEvent)) = false := by
          unfold moves
          split
          · next now same =>
              cases same
              exact (requeues ⟨_, rfl⟩).elim
          · rfl
        rw [countMoves, quiet]
        exact unchanged (stepped.zset_scheduled fun now same => requeues ⟨now, same⟩)
  | enqueuer call =>
      cases moved
      refine once.shrink (fun entry member same => ?_) le_rfl
      rcases Enqueuer.mem_scheduled_execute member with old | written
      · exact old
      · rw [same] at written
        have identified : (payload name spec epoch).textField "id" =
          some (makeUniquePeriodicID name spec epoch) := Job.textField_serialize_id _
        refine (clocked _ (written.symm.trans identified) ?_).elim
        simp [makeUniquePeriodicID]
  | client call => exact clocked.elim
  | pause jobName paused | push jobName raw =>
      cases moved
      exact unchanged rfl

theorem step {name spec : String} (once : Once (payload name spec epoch) epoch state count)
    {event : WholeEvent} (timely : Timely state event)
    (stepped : wholeStep deployment state event = some next) :
    Once (payload name spec epoch) epoch next
      (countMoves deployment (payload name spec epoch) count state event next) := by
  cases wholeStep_cases stepped with
  | base _ moved => exact once.base_step timely.1 moved
  | passed later =>
      exact once.shrink (fun _ member _ => member) (Int64.le_iff_toInt_le.mp later)
  | @periodic id event call last enqueuer alive moved =>
      have early : ∀ now job rest t reply, state.enqueuers id = .enqueuing now job rest t →
          event = .zadd reply → state.clock < Int64.ofInt t := by
        intro now job rest t reply current own
        subst own
        refine timely.2 _ ?_
        rw [addition?, current]
        rfl
      generalize state.enqueuers id = before at moved early
      cases moved with
      | added | unanswered => exact once.add epoch_of_payload (early _ _ _ _ _ rfl rfl)
      | _ => exact once.shrink (fun _ member _ => member) le_rfl

end Once

/-- In every run in which every occurrence is added before its time, for every periodic job,
spec and time, the occurrence is moved to its queue at most once. -/
theorem moved_at_most_once {deployment : PeriodicDeployment} {name spec : String} {epoch : Int64}
    {pair : Whole × ℕ}
    (reached : ((system deployment).monitored 0
      (countMoves deployment (payload name spec epoch))).Reachable
        (fun pair event => Timely pair.1 event) pair) : pair.2 ≤ 1 := by
  have once : Once (payload name spec epoch) epoch pair.1 pair.2 := by
    refine reached.monitored_invariant (Once (payload name spec epoch) epoch) ?_ ?_
    · intro state begun
      refine ⟨fun entry member _ => ?_, .inl rfl⟩
      rw [begun.base.zset] at member
      exact (List.not_mem_nil member).elim
    · intro source memory event target _ once timely stepped
      exact once.step timely stepped
  rcases once.count with unmoved | ⟨moved, -, -⟩
  · omega
  · omega

/-- Pools that register one job and enqueue it at every full hour. -/
def hourlyPools : PeriodicDeployment where
  toDeployment := System.single
  periodicJobs _ := [{ jobName := "send", spec := "0 0 * * * *" }]
  schedules _ t := (t / 3600 + 1) * 3600

/-- The start at a time. -/
def startAt (clock : Int64) : Whole where
  base := System.emptyState
  clock := clock
  last := none
  enqueuers _ := .idle

theorem begun_startAt (clock : Int64) (nonnegative : 0 ≤ clock.toInt) : Begun (startAt clock) :=
  ⟨System.initial_emptyState, nonnegative, rfl, fun _ => rfl⟩

/-- Two pools start. -/
def bootBoth : List WholeEvent :=
  (System.boot ["send"] "A" ++ System.boot ["send"] "B").map .base

/-- A pool wakes up and enqueues one occurrence. -/
def wake (id : PoolID) : List WholeEvent :=
  [.check .ok, .begin, .zadd .ok, .finish .ok].map (.periodic id)

/-- A requeuer looks for due jobs. -/
def requeueAt (now : Int64) : WholeEvent := .base (.pool "A" (.requeue .scheduled now))

theorem moved_at_most_once_by_two_pools :
    ∃ pair, ((system hourlyPools).monitored 0
        (countMoves hourlyPools (payload "send" "0 0 * * * *" 3600))).Reachable
          (fun pair event => Timely pair.1 event) pair ∧ pair.2 = 1 ∧ pair.2 ≤ 1 := by
  have run : ∃ pair, ((system hourlyPools).monitored 0
      (countMoves hourlyPools (payload "send" "0 0 * * * *" 3600))).Reachable
        (fun pair event => Timely pair.1 event) pair ∧ pair.2 = 1 :=
    TransitionSystem.Reachable.exists_of_run
      (bootBoth ++ wake "A" ++ ([.tick 3510] : List WholeEvent) ++ wake "B" ++
        ([.tick 3600, requeueAt 3600, requeueAt 3600] : List WholeEvent))
      (TransitionSystem.initial_monitored (begun_startAt 3500 (by decide)))
      (by decide +kernel)
  obtain ⟨pair, reached, once⟩ := run
  exact ⟨pair, reached, once, moved_at_most_once reached⟩

/-- An enqueuer reads the clock, and before it adds the occurrence another one has added it
and a requeuer has moved it. The occurrence is moved again. -/
theorem moved_twice :
    ∃ pair, ((system hourlyPools).monitored 0
        (countMoves hourlyPools (payload "send" "0 0 * * * *" 3600))).Reachable
          (fun pair event => Clocked pair.1 event) pair ∧ pair.2 = 2 :=
  TransitionSystem.Reachable.exists_of_run
    (bootBoth ++ (wake "A").take 2 ++ wake "B" ++
      ([.tick 3600, requeueAt 3600] : List WholeEvent) ++ (wake "A").drop 2 ++ [requeueAt 3600])
    (TransitionSystem.initial_monitored (begun_startAt 3500 (by decide)))
    (by decide +kernel)

end Periodic
