import WorkQueue.Delivery.Failures
import WorkQueue.Delivery.Requeueing
import WorkQueue.System.Scheduled

/-! # Jobs enqueued for later

A job that is enqueued for a number of seconds from now is scheduled for the end of the
second in which the delay ends, and the requeuers compare with the beginning of their own
second. So it is never moved early, as long as the delay in nanoseconds fits 64 bits; a
longer delay wraps around and the job is due before its time (`Enqueuer.never_early_iff`).

Times are nanoseconds since the epoch.
-/

/-- The nanoseconds of a second. -/
def Time.second : Int64 := 1000000000

/-- The second in which a time lies. -/
def Time.unix (time : ℤ) : Int64 := Int64.ofInt (time / 1000000000)

/-- The seconds of a clock. -/
def nowEpochSeconds (clock : ℤ) : Int64 := Time.unix clock

/-- The first full second after a delay. The delay is a count of nanoseconds. -/
def epochAfterSeconds (clock : ℤ) (seconds : Int64) : Int64 :=
  let time := clock + (Time.second * seconds).toInt
  let time := if 0 < time % 1000000000 then time + 1000000000 else time
  Time.unix time

/-- A time such that its seconds, and those after any delay, are exact as a score in Redis. -/
def Representable (time : ℤ) : Prop := -2 ^ 52 ≤ time / 1000000000 ∧ time / 1000000000 < 2 ^ 52

instance (time : ℤ) : Decidable (Representable time) :=
  inferInstanceAs (Decidable (-2 ^ 52 ≤ time / 1000000000 ∧ time / 1000000000 < 2 ^ 52))

/-- The longest delay whose nanoseconds are an integer, in seconds. -/
def longestDelay : Int64 := 9223372036

section Arithmetic

variable {clock : ℤ} {seconds : Int64}

theorem toInt_unix {time : ℤ} (lower : -2 ^ 63 ≤ time / 1000000000)
    (upper : time / 1000000000 < 2 ^ 63) : (Time.unix time).toInt = time / 1000000000 :=
  Int64.toInt_ofInt_of_le lower upper

theorem unix_full_second (second : Int64) : Time.unix (second.toInt * 1000000000) = second := by
  rw [Time.unix, Int.mul_ediv_cancel _ (by decide), Int64.ofInt_toInt]

theorem toInt_delay (seconds : Int64) :
    (Time.second * seconds).toInt = (1000000000 * seconds.toInt).bmod (2 ^ 64) := by
  rw [Int64.toInt_mul]
  rfl

/-- A job is scheduled for a full second that is not before the end of the delay, and not a
second after it. -/
theorem epochAfterSeconds_bounds (representable : Representable clock) (seconds : Int64) :
    clock + (Time.second * seconds).toInt ≤ (epochAfterSeconds clock seconds).toInt * 1000000000 ∧
      (epochAfterSeconds clock seconds).toInt * 1000000000 <
        clock + (Time.second * seconds).toInt + 1000000000 := by
  obtain ⟨lower, upper⟩ := representable
  have least := (Time.second * seconds).le_toInt
  have greatest := (Time.second * seconds).toInt_lt
  simp only [epochAfterSeconds]
  generalize (Time.second * seconds).toInt = delay at least greatest ⊢
  split
  · rw [toInt_unix (by omega) (by omega)]
    omega
  · rw [toInt_unix (by omega) (by omega)]
    omega

/-- A delay that is not too long is added as it is, or it lies in the past. -/
theorem delay_of_le (short : seconds ≤ longestDelay) :
    1000000000 * seconds.toInt ≤ (Time.second * seconds).toInt ∨ seconds.toInt < 0 := by
  have small : seconds.toInt ≤ 9223372036 := Int64.le_iff_toInt_le.mp short
  rw [toInt_delay, Int.bmod_def]
  omega

/-- A delay that is too long wraps around. -/
theorem delay_of_gt (long : ¬ seconds ≤ longestDelay) :
    (Time.second * seconds).toInt ≤ 1000000000 * seconds.toInt - 2 ^ 64 := by
  have large : 9223372036 < seconds.toInt := by
    rw [Int64.le_iff_toInt_le, not_le] at long
    exact long
  rw [toInt_delay, Int.bmod_def]
  omega

end Arithmetic

namespace Enqueuer

/-- Enqueue a job for a number of seconds from now. -/
def enqueueIn (clock : ℤ) (jobName id : String) (secondsFromNow now : Int64) (args : Args) :
    Call := .enqueueAt jobName id now args (epochAfterSeconds clock secondsFromNow)

/-- Enqueue a job that is unique on a key for a number of seconds from now. -/
def enqueueUniqueInByKey (clock : ℤ) (jobName id : String) (secondsFromNow now : Int64)
    (args keyMap : Args) : Call :=
  .enqueueUnique jobName id now args keyMap (some (epochAfterSeconds clock secondsFromNow))

/-- Enqueue a unique job for a number of seconds from now. -/
def enqueueUniqueIn (clock : ℤ) (jobName id : String) (secondsFromNow now : Int64)
    (args : Args) : Call := enqueueUniqueInByKey clock jobName id secondsFromNow now args none

/-- The functions that enqueue a job for later. -/
inductive Delayed where
  | enqueueIn
  | enqueueUniqueIn
  | enqueueUniqueInByKey
  deriving DecidableEq

/-- The command of a function that enqueues a job for later. -/
def Delayed.call (clock : ℤ) (jobName id : String) (secondsFromNow now : Int64)
    (args keyMap : Args) : Delayed → Call
  | .enqueueIn => Enqueuer.enqueueIn clock jobName id secondsFromNow now args
  | .enqueueUniqueIn => Enqueuer.enqueueUniqueIn clock jobName id secondsFromNow now args
  | .enqueueUniqueInByKey =>
      Enqueuer.enqueueUniqueInByKey clock jobName id secondsFromNow now args keyMap

theorem mem_scheduled_unique {ns : String} {redis : Store} {clock : ℤ} {jobName id : String}
    {secondsFromNow now : Int64} {args keyMap : Args} {entry : Int × RawJSON}
    (member : entry ∈ ((execute ns redis (enqueueUniqueInByKey clock jobName id secondsFromNow now
      args keyMap)).zset .scheduled).entries) :
    entry ∈ (redis.zset .scheduled).entries ∨
      entry.1 = (epochAfterSeconds clock secondsFromNow).toInt := by
  have outcome := execute_unique_cases ns redis jobName id now args keyMap
    (some (epochAfterSeconds clock secondsFromNow))
  unfold enqueueUniqueInByKey at member
  generalize execute ns redis (.enqueueUnique jobName id now args keyMap
    (some (epochAfterSeconds clock secondsFromNow))) = next at outcome member
  cases outcome with
  | duplicate => exact .inl member
  | scheduled =>
      rw [Store.zset_zadd_self, SortedSet.mem_entries_add] at member
      rcases member with rfl | ⟨old, -⟩
      · exact .inr rfl
      · exact .inl old

/-- A job that is enqueued for later is scheduled for the end of its delay. -/
theorem mem_scheduled_delayed {ns : String} {redis : Store} {clock : ℤ} {jobName id : String}
    {secondsFromNow now : Int64} {args keyMap : Args} {delayed : Delayed} {entry : Int × RawJSON}
    (member : entry ∈ ((execute ns redis
      (delayed.call clock jobName id secondsFromNow now args keyMap)).zset .scheduled).entries) :
    entry ∈ (redis.zset .scheduled).entries ∨
      entry.1 = (epochAfterSeconds clock secondsFromNow).toInt := by
  cases delayed with
  | enqueueIn =>
      rw [Delayed.call, enqueueIn, execute, Store.zset_zadd_self,
        SortedSet.mem_entries_add] at member
      rcases member with rfl | ⟨old, -⟩
      · exact .inr rfl
      · exact .inl old
  | enqueueUniqueIn | enqueueUniqueInByKey => exact mem_scheduled_unique member

end Enqueuer

namespace System

/-- A requeuer of a pool moves the job with an identifier from the scheduled jobs to its
queue. -/
def MovesScheduled (deployment : Deployment) (jobID : String) (state : State) (id : PoolID)
    (now : Int64) : Prop :=
  (step deployment state (.pool id (.requeue .scheduled now))).isSome ∧
    (∃ raw ∈ ((state.redis.zset .scheduled).upTo now.toInt).head?, raw.hasID jobID) ∧
    (state.redis.redisLuaZremLpushCmd .scheduled (deployment.pool id).names now).2 = .ok

instance (deployment : Deployment) (jobID : String) (state : State) (id : PoolID) (now : Int64) :
    Decidable (MovesScheduled deployment jobID state id now) :=
  inferInstanceAs (Decidable (_ ∧ _ ∧ _))

/-- Enqueueing does not use an identifier. -/
def Unused (jobID : String) (_ : State) (event : Event) : Prop :=
  ∀ call, event = .enqueuer call → call.jobID? ≠ some jobID

/-- A job that a function enqueues for later, under an identifier that is used for nothing
else, is moved to its queue only after its delay, whatever happens in between. -/
def NeverEarly (delayed : Enqueuer.Delayed) (clock : ℤ) (secondsFromNow : Int64) : Prop :=
  ∀ (deployment : Deployment) (jobName jobID : String) (now : Int64) (args keyMap : Args)
    (state called later : State) (id : PoolID) (moved : ℤ),
    (system deployment).Reachable (fun _ _ => True) state →
    (∀ raw ∈ (state.redis.zset .scheduled).members, ¬ raw.hasID jobID) →
    step deployment state
      (.enqueuer (delayed.call clock jobName jobID secondsFromNow now args keyMap)) = some called →
    (system deployment).Leads (Unused jobID) called later → clock ≤ moved →
    MovesScheduled deployment jobID later id (nowEpochSeconds moved) →
    secondsFromNow.toInt * 1000000000 ≤ moved - clock

/-- As long as its identifier is not used again, a job stays scheduled for its time. -/
theorem score_of_leads {deployment : Deployment} {jobID : String} {score : Int}
    {called later : State}
    (initially : ∀ entry ∈ (called.redis.zset .scheduled).entries, entry.2.hasID jobID →
      entry.1 = score)
    (leads : (system deployment).Leads (Unused jobID) called later) :
    ∀ entry ∈ (later.redis.zset .scheduled).entries, entry.2.hasID jobID → entry.1 = score := by
  refine leads.invariant (fun state => ∀ entry ∈ (state.redis.zset .scheduled).entries,
    entry.2.hasID jobID → entry.1 = score) initially ?_
  intro state event next before unused stepped entry member own
  rcases mem_scheduled_step stepped member with old | ⟨call, rfl, written⟩
  · exact before entry old own
  · exact (unused call rfl (written.symm.trans (of_decide_eq_true own))).elim

/-- A delay whose nanoseconds fit is waited for. -/
theorem neverEarly_of_le (delayed : Enqueuer.Delayed) {clock : ℤ}
    (representable : Representable clock) {secondsFromNow : Int64}
    (short : secondsFromNow ≤ longestDelay) : NeverEarly delayed clock secondsFromNow := by
  intro deployment jobName jobID now args keyMap state called later id moved _ fresh stepped leads
    after ⟨_, ⟨raw, due, own⟩, _⟩
  cases stepped
  have scheduled : ∀ entry ∈ (later.redis.zset .scheduled).entries, entry.2.hasID jobID →
      entry.1 = (epochAfterSeconds clock secondsFromNow).toInt := by
    refine score_of_leads (fun entry member own => ?_) leads
    refine (Enqueuer.mem_scheduled_delayed member).resolve_left fun old => ?_
    exact fresh entry.2 (List.mem_map_of_mem old) own
  obtain ⟨entry, member, rfl⟩ := List.mem_map.mp (List.mem_of_mem_head? due)
  obtain ⟨present, reached⟩ := List.mem_filter.mp member
  have passed := of_decide_eq_true reached
  rw [scheduled entry present own] at passed
  have bounds := (epochAfterSeconds_bounds representable secondsFromNow).1
  have small : secondsFromNow.toInt ≤ 9223372036 := Int64.le_iff_toInt_le.mp short
  have delay := delay_of_le short
  obtain ⟨lower, upper⟩ := representable
  by_cases near : moved / 1000000000 < 2 ^ 63
  · rw [nowEpochSeconds, toInt_unix (by omega) near] at passed
    omega
  · omega

/-- A pool that has started, without scheduled jobs. -/
theorem exists_started :
    ∃ state, (system single).Reachable (fun _ _ => True) state ∧
      (state.redis.zset .scheduled).entries = [] ∧ (state.pools "A").phase = .running ∧
      state.redis.unique (redisKeyUniqueJob "work" "send" none) = none :=
  TransitionSystem.Reachable.exists_of_run (boot ["send"] "A") initial_emptyState
    (by decide +kernel)

/-- A job without arguments that is enqueued for later is scheduled. -/
theorem entries_delayed (delayed : Enqueuer.Delayed) (clock : ℤ) (secondsFromNow : Int64)
    {redis : Store} (empty : (redis.zset .scheduled).entries = [])
    (free : redis.unique (redisKeyUniqueJob "work" "send" none) = none) :
    ∃ job : Job, job.name = "send" ∧ job.id = "1" ∧ job.args = none ∧
      ((Enqueuer.execute "work" redis (delayed.call clock "send" "1" secondsFromNow 0 none
        none)).zset .scheduled).entries =
          [((epochAfterSeconds clock secondsFromNow).toInt, .json job.serialize)] := by
  have added : ∀ (set : SortedSet RawJSON) score raw, set.entries = [] →
      (set.add score raw).entries = [(score, raw)] := by
    intro set score raw nothing
    simp only [SortedSet.add, SortedSet.erase, nothing, List.filter_nil, List.orderedInsert_nil]
  have unique : ((Enqueuer.execute "work" redis (Enqueuer.enqueueUniqueInByKey clock "send" "1"
      secondsFromNow 0 none none)).zset .scheduled).entries =
        [((epochAfterSeconds clock secondsFromNow).toInt,
          .json (Enqueuer.uniqueJob "work" "send" "1" 0 none none).serialize)] := by
    have outcome := Enqueuer.execute_unique_cases "work" redis "send" "1" 0 none none
      (some (epochAfterSeconds clock secondsFromNow))
    unfold Enqueuer.enqueueUniqueInByKey
    generalize Enqueuer.execute "work" redis (.enqueueUnique "send" "1" 0 none none
      (some (epochAfterSeconds clock secondsFromNow))) = next at outcome ⊢
    cases outcome with
    | duplicate taken => exact (taken free).elim
    | scheduled =>
        rw [Store.zset_zadd_self]
        exact added _ _ _ empty
  cases delayed with
  | enqueueIn =>
      refine ⟨Enqueuer.plainJob "send" "1" 0 none, rfl, rfl, rfl, ?_⟩
      rw [Enqueuer.Delayed.call, Enqueuer.enqueueIn, Enqueuer.execute, Store.zset_zadd_self]
      exact added _ _ _ empty
  | enqueueUniqueIn | enqueueUniqueInByKey => exact ⟨_, rfl, rfl, rfl, unique⟩

/-- The only scheduled job of a running pool is moved as soon as it is due. -/
theorem movesScheduled_single {state : State} (running : (state.pools "A").phase = .running)
    {job : Job} {jobID : String} {score : Int} {now : Int64}
    (entries : (state.redis.zset .scheduled).entries = [(score, .json job.serialize)])
    (named : job.name = "send") (identified : job.id = jobID) (plain : job.args = none)
    (due : score ≤ now.toInt) : MovesScheduled single jobID state "A" now := by
  have first : ((state.redis.zset .scheduled).upTo now.toInt).head? =
      some (.json job.serialize) := by
    simp only [SortedSet.upTo, entries, List.filter_cons, due, decide_true, ↓reduceIte,
      List.filter_nil, List.map_cons, List.map_nil, List.head?_cons]
  have fit : Job.FitArgs job.args := by
    rw [plain]
    decide
  have own : (RawJSON.json job.serialize).hasID jobID :=
    decide_eq_true (identified ▸ Job.textField_serialize_id job)
  refine ⟨?_, ⟨_, first, own⟩, ?_⟩
  · simp [step, Pool.step, running, Phase.requeuerAlive]
  · obtain ⟨pushed, -, executed⟩ := Store.redisLuaZremLpushCmd_of_known first
      (by rw [Cjson.decode, if_pos (Job.depth_serialize fit)]) (Job.textField_serialize_name job)
      (by rw [named]; decide) (Job.numbersFit_serialize fit.1)
      (show job.name ∈ (single.pool "A").names by rw [named]; decide)
    rw [executed]

/-- A delay whose nanoseconds do not fit is not waited for. -/
theorem not_neverEarly_of_gt (delayed : Enqueuer.Delayed) {clock : ℤ}
    (representable : Representable clock) {secondsFromNow : Int64}
    (long : ¬ secondsFromNow ≤ longestDelay) : ¬ NeverEarly delayed clock secondsFromNow := by
  intro never
  obtain ⟨state, reached, empty, running, free⟩ := exists_started
  obtain ⟨job, named, identified, plain, entries⟩ :=
    entries_delayed delayed clock secondsFromNow empty free
  have bounds := (epochAfterSeconds_bounds representable secondsFromNow).2
  have wrapped := delay_of_gt long
  have large : 9223372036 < secondsFromNow.toInt := by
    rw [Int64.le_iff_toInt_le, not_le] at long
    exact long
  obtain ⟨lower, upper⟩ := representable
  -- The job is moved at once if it is due, and otherwise at the second it is scheduled for.
  have moves : ∀ moved : ℤ, clock ≤ moved →
      (epochAfterSeconds clock secondsFromNow).toInt ≤ (nowEpochSeconds moved).toInt →
      secondsFromNow.toInt * 1000000000 ≤ moved - clock := by
    intro moved after due
    refine never single "send" "1" 0 none none state _ _ "A" moved reached ?_ rfl .refl after ?_
    · intro raw member
      rw [SortedSet.members, empty] at member
      exact (List.not_mem_nil member).elim
    · refine movesScheduled_single ?_ entries named identified plain due
      exact running
  by_cases due : (epochAfterSeconds clock secondsFromNow).toInt * 1000000000 ≤ clock
  · have early := moves clock le_rfl (by
      rw [nowEpochSeconds, toInt_unix (by omega) (by omega)]
      omega)
    omega
  · have early := moves _ (le_of_not_ge due) (by rw [nowEpochSeconds, unix_full_second])
    omega

end System

/-- At every time, for each function that enqueues a job for later, the job is never moved to
its queue before its delay has passed if and only if the nanoseconds of the delay fit 64 bits
or the delay is negative. -/
theorem Enqueuer.never_early_iff (delayed : Delayed) {clock : ℤ}
    (representable : Representable clock) (secondsFromNow : Int64) :
    System.NeverEarly delayed clock secondsFromNow ↔ secondsFromNow ≤ longestDelay := by
  constructor
  · intro never
    by_contra long
    exact System.not_neverEarly_of_gt delayed representable long never
  · exact System.neverEarly_of_le delayed representable

theorem Enqueuer.never_early_one_hour :
    Representable 1700000000999999999 ∧
      System.NeverEarly .enqueueIn 1700000000999999999 3600 :=
  ⟨by decide, (Enqueuer.never_early_iff .enqueueIn (by decide) 3600).mpr (by decide)⟩

/-- A job that is enqueued for 9223372037 seconds from now, some 292 years, is moved to its
queue in the same moment. -/
theorem Enqueuer.moved_at_once :
    ∃ state, (System.system System.single).run (fun _ _ => True) System.emptyState
        (System.boot ["send"] "A" ++ [.enqueuer
          (enqueueIn 1700000000000000000 "send" "1" 9223372037 1700000000 none)]) = some state ∧
      System.MovesScheduled System.single "1" state "A" (nowEpochSeconds 1700000000000000000) := by
  have executed : ((System.system System.single).run (fun _ _ => True) System.emptyState
      (System.boot ["send"] "A" ++ [.enqueuer
        (enqueueIn 1700000000000000000 "send" "1" 9223372037 1700000000 none)])).any
          fun state => System.MovesScheduled System.single "1" state "A"
            (nowEpochSeconds 1700000000000000000) := by
    decide +kernel
  obtain ⟨state, reached, moved⟩ := (Option.any_eq_true _ _).mp executed
  exact ⟨state, reached, of_decide_eq_true moved⟩
