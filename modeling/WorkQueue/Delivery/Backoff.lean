import WorkQueue.Delivery.Attempts
import WorkQueue.Reaping.Detection
import WorkQueue.System.RetrySet

/-! # How long a failed job waits

A worker puts a failed job on the retry set with the seconds of its own clock plus a backoff, and
a requeuer takes it off as soon as the seconds of its clock have come that far. Clocks show whole
seconds and differ, and commands take time. So until the job is anywhere else than on the retry
set, its backoff has passed up to a second, the delay of a command and twice the difference of a
clock (`backoff_waited`).

The built-in backoff grows with the fourth power of the failures. A job that always fails is
therefore spread over the sum of these powers (`default_retries_spread`), as long as the power is
an integer of 64 bits: the job that has failed 55109 times is due at once.

Times are nanoseconds since the epoch.
-/

/-- The built-in backoff in seconds, with a random number below thirty. -/
def defaultBackoffCalculator (random : Int64) (job : Job) : Int64 :=
  let fails := job.fails
  fails * fails * fails * fails + 15 + random * (fails + 1)

/-- The backoff of a job type: its own, or the built-in one. -/
def calcBackoff (backoff : Option (Job → Int64)) (random : Int64) (job : Job) : Int64 :=
  match backoff with
  | none => defaultBackoffCalculator random job
  | some calculate => calculate job

/-- The most failures for which the built-in backoff is an integer of 64 bits. -/
def mostFails : ℕ := 55108

theorem toInt_mul_of_nonneg {left right : Int64} {a b : ℤ} (first : left.toInt = a)
    (second : right.toInt = b) (positive : 0 ≤ a * b) (bounded : a * b < 2 ^ 63) :
    (left * right).toInt = a * b := by
  rw [Int64.toInt_mul, first, second]
  exact Int.bmod_eq_of_le (by omega) (by omega)

theorem toInt_add_of_nonneg {left right : Int64} {a b : ℤ} (first : left.toInt = a)
    (second : right.toInt = b) (positive : 0 ≤ a + b) (bounded : a + b < 2 ^ 63) :
    (left + right).toInt = a + b := by
  rw [Int64.toInt_add, first, second]
  exact Int.bmod_eq_of_le (by omega) (by omega)

/-- Up to `mostFails` failures the built-in backoff does not wrap around, and leaves room for a
time of fourteen digits. -/
theorem toInt_defaultBackoffCalculator {job : Job} {fails : ℕ} (counted : job.fails.toInt = fails)
    (few : fails ≤ mostFails) (random : Fin 30) :
    (defaultBackoffCalculator (Int64.ofNat random) job).toInt =
        (fails : ℤ) ^ 4 + 15 + random * (fails + 1) ∧
      (fails : ℤ) ^ 4 + 15 + random * (fails + 1) < 2 ^ 63 - 10 ^ 14 := by
  have least : (0 : ℤ) ≤ fails := Int.natCast_nonneg fails
  have most : (fails : ℤ) ≤ 55108 := Int.ofNat_le.mpr few
  have drawn : (Int64.ofNat random).toInt = (random : ℕ) :=
    Int64.toInt_ofNat_of_lt (random.isLt.trans (by decide))
  have none : (0 : ℤ) ≤ (random : ℕ) := Int.natCast_nonneg _
  have below : ((random : ℕ) : ℤ) ≤ 29 := Int.ofNat_le.mpr (Nat.le_of_lt_succ random.isLt)
  have square : (fails : ℤ) ^ 2 ≤ 55108 ^ 2 := pow_le_pow_left₀ least most 2
  have cube : (fails : ℤ) ^ 3 ≤ 55108 ^ 3 := pow_le_pow_left₀ least most 3
  have power : (fails : ℤ) ^ 4 ≤ 55108 ^ 4 := pow_le_pow_left₀ least most 4
  have spread : ((random : ℕ) : ℤ) * (fails + 1) ≤ 29 * 55109 :=
    mul_le_mul below (by omega) (by omega) (by omega)
  have positive : 0 ≤ ((random : ℕ) : ℤ) * (fails + 1) := mul_nonneg none (by omega)
  have squared : (job.fails * job.fails).toInt = fails ^ 2 := by
    rw [pow_two] at square ⊢
    exact toInt_mul_of_nonneg counted counted (mul_nonneg least least) (by omega)
  have cubed : (job.fails * job.fails * job.fails).toInt = fails ^ 3 := by
    rw [pow_succ] at cube ⊢
    exact toInt_mul_of_nonneg squared counted (by positivity) (by omega)
  have raised : (job.fails * job.fails * job.fails * job.fails).toInt = fails ^ 4 := by
    rw [pow_succ] at power ⊢
    exact toInt_mul_of_nonneg cubed counted (by positivity) (by omega)
  have next : (job.fails + 1).toInt = fails + 1 :=
    toInt_add_of_nonneg counted rfl (by omega) (by omega)
  have nonneg : (0 : ℤ) ≤ (fails : ℤ) ^ 4 := by positivity
  constructor
  · apply toInt_add_of_nonneg
    · exact toInt_add_of_nonneg raised rfl (by omega) (by omega)
    · exact toInt_mul_of_nonneg drawn next positive (by omega)
    · omega
    · omega
  · omega

/-- The job that has failed once more is due at once, whatever is drawn. -/
example : ∀ random : Fin 30,
    defaultBackoffCalculator (Int64.ofNat random)
      { Enqueuer.plainJob "send" "1" 0 none with fails := 55109 } < 0 := by
  decide

/-- A job that is retried gets the time of its completion plus its backoff as score. -/
theorem Worker.score_of_retry {config : PoolConfig} {job : Job} {finish : Finish} {score : Int64}
    {written : RawJSON} (fate : (processJob config job finish).2 = some (.retry, score, written)) :
    score = finish.now + finish.backoff := by
  have dies : ∀ marshals failed,
      terminateAndDead finish marshals failed ≠ some (.retry, score, written) := by
    intro marshals failed same
    unfold terminateAndDead at same
    split at same <;> cases same
  unfold processJob at fate
  split at fate
  · simp only [jobFate] at fate
    exact (dies _ _ fate).elim
  · split at fate
    · cases fate
    · simp only [jobFate] at fate
      split at fate
      · unfold terminateAndRetry at fate
        obtain ⟨-, fate⟩ := Option.ite_none_right_eq_some.mp fate
        cases fate
        rfl
      · split at fate
        · cases fate
        · exact (dies _ _ fate).elim

namespace System

variable {deployment : Deployment} {state next : State} {event : Event} {jobID : String}

/-- What is remembered of a job: the time of the last step, its stage, how often its run has ended,
and when it was put on the retry set with which backoff, last first. -/
structure RetryLog where
  time : ℤ
  stage : Stage
  runs : ℕ
  retries : List (ℤ × Int64)

/-- The backoff with which an event puts the job on the retry set. -/
def Event.backoff? (deployment : Deployment) (jobID : String) (state : State) :
    Event → Option Int64
  | .pool id (.worker index (.finish finish reply)) =>
      (runningJob? state id index).bind fun job =>
        if reply ≠ .failed ∧ job.id = jobID ∧
            ((Worker.processJob (deployment.pool id) job.toJob finish).2.any fun added =>
              added.1 = .retry) then some finish.backoff
        else none
  | _ => none

theorem backoff?_eq_some {backoff : Int64} :
    event.backoff? deployment jobID state = some backoff ↔
      ∃ id index finish reply job score written,
        event = .pool id (.worker index (.finish finish reply)) ∧
          runningJob? state id index = some job ∧ reply ≠ .failed ∧ job.id = jobID ∧
          (Worker.processJob (deployment.pool id) job.toJob finish).2 =
            some (.retry, score, written) ∧ finish.backoff = backoff := by
  constructor
  · intro found
    unfold Event.backoff? at found
    split at found
    · obtain ⟨job, running, found⟩ := Option.bind_eq_some_iff.mp found
      split at found
      · next facts =>
          obtain ⟨executed, own, retried⟩ := facts
          obtain ⟨⟨key, score, written⟩, fate, same⟩ := (Option.any_eq_true _ _).mp retried
          obtain rfl : key = .retry := of_decide_eq_true same
          exact ⟨_, _, _, _, job, score, written, rfl, running, executed, own, fate,
            Option.some.inj found⟩
      · cases found
    · cases found
  · intro ⟨id, index, finish, reply, job, score, written, same, running, executed, own, fate, drawn⟩
    subst same
    simp only [Event.backoff?, running, Option.bind_some, executed, own, fate, Option.any_some,
      ne_eq, not_false_eq_true, decide_true, and_self, ↓reduceIte, drawn]

/-- Note a step. -/
def RetryLog.note (deployment : Deployment) (jobID : String) (log : RetryLog) (state : State)
    (event : ℤ × Event) (next : State) : RetryLog where
  time := event.1
  stage := log.stage.observe deployment jobID state event.2 next
  runs := if event.2.completes jobID state then log.runs + 1 else log.runs
  retries := ((event.2.backoff? deployment jobID state).map (event.1, ·)).toList ++ log.retries

/-- The system with times and the log of a job. -/
def retrying (deployment : Deployment) (jobID : String) :
    TransitionSystem (State × RetryLog) (ℤ × Event) :=
  (system deployment).stamped.monitored ⟨0, .fresh, 0, []⟩ (RetryLog.note deployment jobID)

/-- The seconds that a worker and a requeuer read off their clocks for the retry set. -/
def Event.shown? : Event → Option ℤ
  | .pool _ (.worker _ (.finish finish _)) => some finish.now.toInt
  | .pool _ (.requeue _ now) => some now.toInt
  | _ => none

/-- A clock is read at most some time before the command is executed, and differs from the true
time by at most the skew. -/
def Event.ReadsTime (latency skew : ℕ) (time : ℤ) (event : Event) : Prop :=
  ∀ shown ∈ event.shown?, Clock.Shows second (time - latency - skew) (time + skew) shown

/-- Steps in the order of their times, with clocks read within the bounds, in runs that use the
identifier once and keep the keys apart. The time at which a retry is due is an integer of 64
bits. -/
structure Punctual (deployment : Deployment) (latency skew : ℕ) (jobID : String)
    (pair : State × RetryLog) (event : ℤ × Event) : Prop where
  ordered : pair.2.time ≤ event.1
  reads : event.2.ReadsTime latency skew event.1
  apart : PlainKeys deployment pair.1 event.2
  distinct : Distinct jobID (pair.1, pair.2.stage) event.2
  fits : ∀ backoff ∈ event.2.backoff? deployment jobID pair.1, ∀ completion ∈ event.2.finish?,
    (completion.2.2.now + backoff).toInt = completion.2.2.now.toInt + backoff.toInt

section Tracked

variable {stage : Stage}

/-- The stage of a job changes when it is enqueued and when it is over. -/
theorem observe_cases (deployment : Deployment) (jobID : String) (state : State) (event : Event)
    (next : State) (stage : Stage) :
    stage.observe deployment jobID state event next = stage ∨
      stage.observe deployment jobID state event next = .over ∨
      stage.observe deployment jobID state event next = .live ∧
        ∃ enqueued ∈ event.enqueues?, enqueued.1 = jobID := by
  generalize after : stage.observe deployment jobID state event next = later
  unfold Stage.observe at after
  split at after
  · split at after
    · next own => exact .inr (.inr ⟨after.symm, _, rfl, own⟩)
    · exact .inl after.symm
  · split at after
    · next own => exact .inr (.inr ⟨after.symm, _, rfl, own⟩)
    · exact .inl after.symm
  · split at after
    · split at after
      · exact .inr (.inl after.symm)
      · exact .inl after.symm
    · exact .inl after.symm
  · split at after
    · exact .inr (.inl after.symm)
    · exact .inl after.symm
  · split at after
    · exact .inr (.inl after.symm)
    · exact .inl after.symm
  · exact .inl after.symm

/-- A job that a worker completes is on the list it was fetched to. -/
theorem placed_of_running (tracked : Tracked jobID state stage)
    (contract : (identityContract deployment jobID).Everywhere state)
    (holding : Holding deployment state) {id : PoolID} {index : ℕ} {workerEvent : Worker.Event}
    {job : FetchedJob}
    (stepped : step deployment state (.pool id (.worker index workerEvent)) = some next)
    (running : runningJob? state id index = some job) (own : job.id = jobID) :
    state.redis.Placed jobID (some (.list job.inProgQueue)) := by
  obtain ⟨raw, present⟩ := running_of_runningJob? running
  have member := List.mem_of_getElem? present
  obtain ⟨name, _, progress, _⟩ := contract.workers id _ member
  have faithful : job.id = jobID ↔ raw.hasID jobID := tracked.faithful id _ member
  have alive : (state.pools id).phase ≠ .crashed := by
    obtain ⟨pool, _, moved⟩ := step_pool stepped
    generalize next.redis = redis at moved
    cases moved with
    | worked alive =>
        intro crashed
        rw [crashed] at alive
        cases alive
  have listed : raw ∈ state.redis.list job.inProgQueue := by
    rw [progress]
    exact holding.mem_of_taken alive member (by rw [Worker.State.taken, progress])
  obtain ⟨location, placed, _⟩ := tracked.fits
  rw [← placed.mem_list (faithful.mp own) listed]
  exact placed

/-- A job leaves the retry set for another place only if a requeuer finds it due. -/
theorem requeue_of_elsewhere (placed : state.redis.Placed jobID (some (.zset .retry)))
    (stepped : step deployment state event = some next) {location : Option Place}
    (later : next.redis.Placed jobID location) {place : Place} (elsewhere : place ≠ .zset .retry)
    (present : 0 < next.redis.copies jobID place) :
    ∃ id now raw, event = .pool id (.requeue .retry now) ∧ raw.hasID jobID ∧
      ((state.redis.zset .retry).upTo now.toInt).head? = some raw := by
  have waits : 0 < state.redis.copies jobID (.zset .retry) := by
    rw [(placed _).1 rfl]
    exact Nat.one_pos
  obtain ⟨raw, member, own⟩ := List.countP_pos_iff.mp waits
  obtain rfl := later.eq_of_pos present
  obtain kept | ⟨id, now, same, due⟩ | ⟨zscore, deletedID, same, after⟩ :=
    (step_retry stepped).mem_members member
  · exact (elsewhere (Option.some.inj (later.mem_zset own kept))).elim
  · exact ⟨id, now, raw, same, own, due⟩
  · -- A deletion puts the job nowhere else.
    obtain ⟨_, others⟩ := Store.Placed.deleteLoop_copies state.redis jobID (0, none)
    rw [after, Store.redisLuaDeleteSingleCmd, others place elsewhere] at present
    exact (elsewhere (Option.some.inj (placed.eq_of_pos present)).symm).elim

end Tracked

instance (early late shown : ℤ) : Decidable (Clock.Shows second early late shown) :=
  decidable_of_iff _ (Clock.shows_iff second_pos).symm

instance (latency skew : ℕ) (time : ℤ) (event : Event) :
    Decidable (event.ReadsTime latency skew time) :=
  Option.decidableForallMem event.shown?

-- Integers of 64 bits are finitely many, and not to be tried one after the other.
local instance (priority := 2000) decidableForallBackoff {holds : Int64 → Prop}
    [DecidablePred holds] (backoff? : Option Int64) :
    Decidable (∀ backoff ∈ backoff?, holds backoff) :=
  Option.decidableForallMem backoff?

instance (latency skew : ℕ) (pair : State × RetryLog) (event : ℤ × Event) :
    Decidable (Punctual deployment latency skew jobID pair event) :=
  decidable_of_iff (_ ∧ _ ∧ _ ∧ _ ∧ _)
    ⟨fun ⟨ordered, reads, apart, distinct, fits⟩ => ⟨ordered, reads, apart, distinct, fits⟩,
      fun ⟨ordered, reads, apart, distinct, fits⟩ => ⟨ordered, reads, apart, distinct, fits⟩⟩

/-- The least time for which a backoff of some seconds is waited. Clocks show whole seconds. -/
def leastWait (latency skew : ℕ) (backoff : ℤ) : ℤ :=
  (backoff - 1) * second - latency - 2 * skew

section Waiting

variable {latency skew : ℕ} {log : RetryLog} {time : ℤ}

theorem RetryLog.retries_of_none (kept : event.backoff? deployment jobID state = none) :
    (log.note deployment jobID state (time, event) next).retries = log.retries := by
  simp only [note, kept, Option.map_none, Option.toList_none, List.nil_append]

theorem RetryLog.retries_of_some {backoff : Int64}
    (retried : event.backoff? deployment jobID state = some backoff) :
    (log.note deployment jobID state (time, event) next).retries =
      (time, backoff) :: log.retries := by
  simp only [note, retried, Option.map_some, Option.toList_some, List.singleton_append]

/-- What is known of a job that has been put on the retry set. -/
structure BackedOff (latency skew : ℕ) (jobID : String) (state : State)
    (log : RetryLog) : Prop where
  tracked : Tracked jobID state log.stage
  begun : log.retries ≠ [] → log.stage ≠ .fresh
  scored : ∀ failure ∈ log.retries.head?, ∀ entry ∈ (state.redis.zset .retry).entries,
    entry.2.hasID jobID → ∃ shown, entry.1 = shown + failure.2.toInt ∧
      Clock.Shows second (failure.1 - latency - skew) (failure.1 + skew) shown
  waited : ∀ failure ∈ log.retries.head?, ∀ place ≠ .zset .retry,
    0 < state.redis.copies jobID place →
      failure.1 + leastWait latency skew failure.2.toInt < log.time

/-- A job that its completion puts on the retry set is nowhere else afterwards. -/
theorem placed_of_backoff {backoff : Int64}
    (retried : event.backoff? deployment jobID state = some backoff)
    (own : OwnPayloads state event) (stepped : step deployment state event = some next)
    {location : Option Place} (later : next.redis.Placed jobID location) :
    location = some (.zset .retry) := by
  obtain ⟨id, index, finish, reply, job, score, written, rfl, running, executed, mine, fate, _⟩ :=
    backoff?_eq_some.mp retried
  obtain ⟨raw, present⟩ := running_of_runningJob? running
  have identified : written.hasID jobID := by
    have kept := own.2 _ rfl job running
    rw [(Worker.processJob_written fate).1, hasID_serialize, (Worker.processJob_identity kept).2.1]
    exact decide_eq_true mine
  obtain ⟨worker, worker', there, _, moved⟩ := step_own_worker stepped
  obtain rfl := Option.some.inj (present.symm.trans there)
  apply later.mem_zset identified
  generalize next.redis = redis at moved
  cases moved with
  | unfinished => exact (executed rfl).elim
  | finished =>
      rw [fate, Worker.removeJobFromInProgress, Store.zset_zadd_self, SortedSet.mem_add]
      exact .inl rfl

namespace BackedOff

theorem initial (start : Initial state) :
    BackedOff latency skew jobID state ⟨0, .fresh, 0, []⟩ where
  tracked := .initial start
  begun nonempty := (nonempty rfl).elim
  scored _ none := by cases none
  waited _ none := by cases none

variable (backed : BackedOff latency skew jobID state log)
  (punctual : Punctual deployment latency skew jobID (state, log) (time, event))
  (contract : (identityContract deployment jobID).Everywhere state)
  (holding : Holding deployment state) (stepped : System.step deployment state event = some next)

include backed punctual contract holding stepped

theorem tracked_step :
    Tracked jobID next (log.note deployment jobID state (time, event) next).stage :=
  backed.tracked.step contract holding punctual.distinct stepped

theorem begun_step
    (nonempty : (log.note deployment jobID state (time, event) next).retries ≠ []) :
    (log.note deployment jobID state (time, event) next).stage ≠ .fresh := by
  have live : log.stage ≠ .fresh := by
    cases retried : event.backoff? deployment jobID state with
    | none =>
        rw [RetryLog.retries_of_none retried] at nonempty
        exact backed.begun nonempty
    | some backoff =>
        obtain ⟨id, index, finish, reply, job, _, _, rfl, running, _, own, _⟩ :=
          backoff?_eq_some.mp retried
        have here := placed_of_running backed.tracked contract holding stepped running own
        obtain ⟨location, placed, present⟩ := backed.tracked.fits
        rw [present.mp (placed.unique here ▸ rfl)]
        exact Stage.noConfusion
  simp only [RetryLog.note]
  obtain same | same | ⟨same, _⟩ := observe_cases deployment jobID state event next log.stage
  · rw [same]
    exact live
  · rw [same]
    exact Stage.noConfusion
  · rw [same]
    exact Stage.noConfusion

/-- Every entry of the job on the retry set has the score of its last completion. -/
theorem scored_step {failure : ℤ × Int64}
    (last : failure ∈ (log.note deployment jobID state (time, event) next).retries.head?)
    {entry : Int × RawJSON} (member : entry ∈ (next.redis.zset .retry).entries)
    (own : entry.2.hasID jobID) :
    ∃ shown, entry.1 = shown + failure.2.toInt ∧
      Clock.Shows second (failure.1 - latency - skew) (failure.1 + skew) shown := by
  obtain old | ⟨id, index, finish, reply, job, raw, score, rfl, present, executed, fate, scored⟩ :=
    (step_retry stepped).mem_entries member
  · cases retried : event.backoff? deployment jobID state with
    | none =>
        rw [RetryLog.retries_of_none retried] at last
        exact backed.scored failure last entry old own
    | some backoff =>
        -- The job was in progress, so it was not on the retry set.
        obtain ⟨id, index, finish, reply, job, _, _, rfl, running, _, mine, _⟩ :=
          backoff?_eq_some.mp retried
        have here := placed_of_running backed.tracked contract holding stepped running mine
        cases here.mem_zset own (List.mem_map_of_mem old)
  · have running := runningJob?_of_running present
    have kept := punctual.distinct.1.1.2 _ rfl job running
    have mine : job.id = jobID := by
      rw [(Worker.processJob_written fate).1, hasID_serialize,
        (Worker.processJob_identity kept).2.1] at own
      exact of_decide_eq_true own
    have retried : Event.backoff? deployment jobID state
        (.pool id (.worker index (.finish finish reply))) = some finish.backoff :=
      backoff?_eq_some.mpr ⟨_, _, _, _, job, _, _, rfl, running, executed, mine, fate, rfl⟩
    rw [RetryLog.retries_of_some retried, List.head?_cons, Option.mem_some_iff] at last
    subst last
    refine ⟨finish.now.toInt, ?_, punctual.reads _ rfl⟩
    rw [scored, Worker.score_of_retry fate]
    exact punctual.fits finish.backoff retried (id, index, finish) rfl

/-- A job that is anywhere else has waited. -/
theorem waited_step {failure : ℤ × Int64}
    (last : failure ∈ (log.note deployment jobID state (time, event) next).retries.head?)
    {place : Place} (elsewhere : place ≠ .zset .retry)
    (present : 0 < next.redis.copies jobID place) :
    failure.1 + leastWait latency skew failure.2.toInt < time := by
  obtain ⟨after, later, lives⟩ :=
    (backed.tracked_step punctual contract holding stepped).fits
  obtain rfl := later.eq_of_pos present
  cases retried : event.backoff? deployment jobID state with
  | some backoff =>
      have there := placed_of_backoff retried punctual.distinct.1.1 stepped later
      exact (elsewhere (Option.some.inj there)).elim
  | none =>
      rw [RetryLog.retries_of_none retried] at last
      obtain ⟨location, placed, lived⟩ := backed.tracked.fits
      cases location with
      | none =>
          -- The job cannot come back, as its identifier is used once.
          have begun := backed.begun fun empty => by
            rw [empty] at last
            cases last
          obtain same | ended | ⟨_, enqueued, found, own⟩ :=
            observe_cases deployment jobID state event next log.stage
          · cases lived.mpr (same.symm.trans (lives.mp rfl))
          · cases ended.symm.trans (lives.mp rfl)
          · exact (begun (punctual.distinct.2.1 enqueued found own)).elim
      | some before =>
          by_cases waiting : before = .zset .retry
          · subst waiting
            obtain ⟨id, now, raw, rfl, own, due⟩ :=
              requeue_of_elsewhere placed stepped later elsewhere present
            obtain ⟨entry, found, rfl⟩ := List.mem_map.mp (List.mem_of_mem_head? due)
            obtain ⟨member, reached⟩ := List.mem_filter.mp found
            obtain ⟨shown, scored, shows⟩ := backed.scored failure last entry member own
            have passed : entry.1 ≤ now.toInt := of_decide_eq_true reached
            have read : Clock.Shows second (time - latency - skew) (time + skew) now.toInt :=
              (punctual.reads _ rfl)
            by_contra early
            have young : now.toInt < shown + failure.2.toInt := by
              apply shows.lt_add second_pos read
              unfold leastWait at early
              linarith
            omega
          · have old := backed.waited failure last before waiting (by
              rw [(placed before).1 rfl]
              exact Nat.one_pos)
            exact old.trans_le punctual.ordered

theorem step :
    BackedOff latency skew jobID next (log.note deployment jobID state (time, event) next) where
  tracked := backed.tracked_step punctual contract holding stepped
  begun := backed.begun_step punctual contract holding stepped
  scored _ last _ := backed.scored_step punctual contract holding stepped last
  waited _ last _ := backed.waited_step punctual contract holding stepped last

end BackedOff

/-- Forgetting the times and the log turns a run into one of the system. -/
theorem reachable_of_retrying {scope : State × RetryLog → ℤ × Event → Prop}
    {wide : State → Event → Prop} {pair : State × RetryLog}
    (weaker : ∀ pair event, scope pair event → wide pair.1 event.2)
    (reached : (retrying deployment jobID).Reachable scope pair) :
    (system deployment).Reachable wide pair.1 := by
  apply TransitionSystem.Reachable.of_stamped
  apply TransitionSystem.Reachable.of_monitored
  exact reached.mono weaker

theorem BackedOff.reachable {pair : State × RetryLog}
    (reached : (retrying deployment jobID).Reachable
      (Punctual deployment latency skew jobID) pair) :
    BackedOff latency skew jobID pair.1 pair.2 := by
  apply TransitionSystem.Reachable.monitored_invariant (BackedOff latency skew jobID) _ _ reached
  · intro state start
    exact initial start
  · intro source log event target reachedSource backed punctual stepped
    apply backed.step punctual _ _ stepped
    · apply (identityContract deployment jobID).reachable
      exact reachable_of_retrying (fun _ _ punctual => punctual.distinct.1) reachedSource
    · apply Holding.reachable (fun _ _ crashed => crashed)
      exact reachable_of_retrying (fun _ _ punctual => punctual.distinct.2.2.1) reachedSource

/-- Whenever a job that has failed is anywhere else than on the retry set, on its queue, in
progress or dead, its last backoff has passed, up to a second, the delay of a command and twice
the difference of a clock. -/
theorem backoff_waited
    (reached : (retrying deployment jobID).Reachable
      (Punctual deployment latency skew jobID) (state, log))
    {failure : ℤ × Int64} (last : failure ∈ log.retries.head?) {place : Place}
    (elsewhere : place ≠ .zset .retry) (present : 0 < state.redis.copies jobID place) :
    failure.1 + leastWait latency skew failure.2.toInt < log.time :=
  (BackedOff.reachable reached).waited failure last place elsewhere present

/-- The job is fetched and fails late in a second, with the built-in backoff and nothing drawn. -/
def failingRun (fails enqueuedAt failedAt now : Int64) : List (ℤ × Event) :=
  let job : Job :=
    { Enqueuer.plainJob "send" "1" enqueuedAt none with
      fails := fails, lastErr := if fails = 0 then "" else "boom", failedAt := failedAt }
  ([.fetch ["send"] .ok,
    .finish
      { after := job, marshals := true, error := some "boom", failedAt := now, now := now,
        backoff := defaultBackoffCalculator 0 (job.failed "boom" now) } .ok] :
    List Worker.Event).map fun event =>
      (now.toInt * second + 900000000, .pool "A" (.worker 0 event))

/-- The job is enqueued, fails and is requeued as soon as it is due. -/
def firstRetry : List (ℤ × Event) :=
  (boot ["send"] "A" ++ [Event.enqueuer (.enqueue "send" "1" 0 none)]).map (0, ·) ++
    failingRun 0 0 0 1 ++ [(17 * second, .pool "A" (.requeue .retry 17))]

theorem backoff_waited_once : ∃ state log,
    (retrying single "1").Reachable (Punctual single 0 0 "1") (state, log) ∧
      0 < state.redis.copies "1" (.list (.jobs "send")) ∧
      (1900000000, 16) ∈ log.retries.head? ∧
      1900000000 + leastWait 0 0 16 < log.time := by
  have run : ∃ pair, (retrying single "1").Reachable (Punctual single 0 0 "1") pair ∧
      0 < pair.1.redis.copies "1" (.list (.jobs "send")) ∧
      (1900000000, 16) ∈ pair.2.retries.head? :=
    TransitionSystem.Reachable.exists_of_run firstRetry
      (TransitionSystem.initial_monitored initial_emptyState) (by decide +kernel)
  obtain ⟨⟨state, log⟩, reached, queued, last⟩ := run
  exact ⟨state, log, reached, queued, last, backoff_waited reached last (by decide) queued⟩

end Waiting

/-- The least time over which some retries with the built-in backoff are spread. -/
def leastSpread (latency skew : ℕ) (retries : ℕ) : ℤ :=
  ∑ fails ∈ Finset.range retries, leastWait latency skew ((fails + 1 : ℕ) ^ 4 + 15)

section Spreading

variable {latency skew : ℕ} {log : RetryLog} {time : ℤ} {name : String} {options : JobOptions}
  {registers : Registers deployment name options}

/-- Steps in the order of their times, with clocks read within the bounds, in runs of a job that
always fails and is retried with the built-in backoff, with keys that are kept apart. The clocks
of workers show at most fourteen digits. -/
structure FailsByDefault (deployment : Deployment) (latency skew : ℕ) (name jobID : String)
    (pair : State × RetryLog) (event : ℤ × Event) : Prop where
  ordered : pair.2.time ≤ event.1
  reads : event.2.ReadsTime latency skew event.1
  apart : PlainKeys deployment pair.1 event.2
  failing : Failing name jobID (pair.1, pair.2.stage, pair.2.runs) event.2
  drawn : ∀ completion ∈ event.2.finish?,
    ∀ job ∈ runningJob? pair.1 completion.1 completion.2.1, job.id = jobID →
      Cjson.Short completion.2.2.now ∧ ∃ random : Fin 30, completion.2.2.backoff =
        calcBackoff none (Int64.ofNat random)
          (Worker.processJob (deployment.pool completion.1) job.toJob completion.2.2).1

instance (latency skew : ℕ) (name : String) (pair : State × RetryLog) (event : ℤ × Event) :
    Decidable (FailsByDefault deployment latency skew name jobID pair event) :=
  decidable_of_iff (_ ∧ _ ∧ _ ∧ _ ∧ _)
    ⟨fun ⟨ordered, reads, apart, failing, drawn⟩ => ⟨ordered, reads, apart, failing, drawn⟩,
      fun ⟨ordered, reads, apart, failing, drawn⟩ => ⟨ordered, reads, apart, failing, drawn⟩⟩

theorem leastWait_mono {less more : ℤ} (le : less ≤ more) :
    leastWait latency skew less ≤ leastWait latency skew more := by
  unfold leastWait second
  omega

theorem leastSpread_succ (retries : ℕ) :
    leastSpread latency skew (retries + 1) =
      leastSpread latency skew retries + leastWait latency skew ((retries + 1 : ℕ) ^ 4 + 15) :=
  Finset.sum_range_succ _ _

theorem not_completes_of_backoff (others : event.completes jobID state = false) :
    event.backoff? deployment jobID state = none := by
  by_contra some
  obtain ⟨backoff, retried⟩ := Option.ne_none_iff_exists'.mp some
  obtain ⟨id, index, finish, reply, job, _, _, same, running, _, own, _⟩ :=
    backoff?_eq_some.mp retried
  rw [completes_iff.mpr ⟨id, index, finish, reply, job, same, running, own⟩] at others
  cases others

/-- A run of the job that ends puts it on the retry set, with the built-in backoff, unless it was
the last one. -/
theorem backoff?_of_completes (few : options.attempts ≤ mostFails + 1)
    (attempted : Attempted registers jobID state (log.stage, log.runs))
    (holding : Holding deployment state)
    (allowed : FailsByDefault deployment latency skew name jobID (state, log) (time, event))
    (stepped : step deployment state event = some next)
    (completes : event.completes jobID state) :
    log.runs < options.attempts ∧
      if log.runs + 1 < options.attempts then
        ∃ completion ∈ event.finish?,
          event.backoff? deployment jobID state = some completion.2.2.backoff ∧
            ((log.runs + 1 : ℕ) : ℤ) ^ 4 + 15 ≤ completion.2.2.backoff.toInt ∧
            (completion.2.2.now + completion.2.2.backoff).toInt =
              completion.2.2.now.toInt + completion.2.2.backoff.toInt
      else event.backoff? deployment jobID state = none := by
  obtain ⟨id, index, finish, reply, job, rfl, running, own⟩ := completes_iff.mp completes
  have bounded : options.attempts ≤ 10 ^ 14 := few.trans (by decide)
  obtain ⟨_, below, _⟩ := attempted.finished bounded holding allowed.failing running own stepped
  refine ⟨below, ?_⟩
  obtain ⟨plain, _, marshals, each⟩ := allowed.failing
  obtain ⟨error, executed, fit, stamped⟩ := each job running own
  obtain ⟨raw, present⟩ := running_of_runningJob? running
  obtain ⟨_, _, _, held⟩ := attempted.tallied.workers id _ (List.mem_of_getElem? present)
  obtain ⟨named, _, counted⟩ := held own
  have kept := plain.1.2 (id, index, finish) rfl job running
  obtain ⟨failed, _, _, _, _, fate⟩ :=
    registers.fate bounded id named counted below kept marshals error fit stamped
  split
  · next more =>
      rw [if_pos more] at fate
      refine ⟨(id, index, finish), rfl, ?_, ?_⟩
      · exact backoff?_eq_some.mpr ⟨_, _, _, _, job, _, _, rfl, running, executed, own, fate, rfl⟩
      · obtain ⟨jobType, registered, _⟩ := registers.jobType id
        rw [← named] at registered
        obtain ⟨message, processed⟩ := Worker.processJob_failing registered error marshals
        obtain ⟨short, random, drawn⟩ := allowed.drawn (id, index, finish) rfl job running own
        have fails : (Worker.processJob (deployment.pool id) job.toJob finish).1.fails.toInt =
            (log.runs + 1 : ℕ) := by
          rw [processed]
          apply Worker.toInt_succ _ (below.trans_le bounded)
          rw [kept]
          exact counted
        obtain ⟨value, room⟩ := toInt_defaultBackoffCalculator fails
          (Nat.le_of_lt_succ (more.trans_le few)) random
        simp only [calcBackoff] at drawn
        rw [drawn, Int64.toInt_add, value]
        have positive : 0 ≤ ((random : ℕ) : ℤ) * ((log.runs + 1 : ℕ) + 1) := by positivity
        have power : 0 ≤ ((log.runs + 1 : ℕ) : ℤ) ^ 4 := by positivity
        obtain ⟨least, most⟩ := abs_lt.mp short
        refine ⟨by omega, Int.bmod_eq_of_le ?_ ?_⟩ <;> omega
  · next last =>
      by_contra some
      obtain ⟨backoff, retried⟩ := Option.ne_none_iff_exists'.mp some
      obtain ⟨_, _, _, _, other, _, _, same, found, _, _, retry, _⟩ := backoff?_eq_some.mp retried
      cases same
      obtain rfl := Option.some.inj (running.symm.trans found)
      rw [fate, if_neg last] at retry
      split at retry <;> cases retry

/-- The retries of a job that always fails: one for each run but the last, with growing backoffs,
each after the backoff of the one before. -/
structure Spread (options : JobOptions) (latency skew : ℕ) (log : RetryLog) : Prop where
  counted : log.retries.length = min log.runs (options.attempts - 1)
  grown : ∀ failure ∈ log.retries.head?,
    (log.retries.length : ℤ) ^ 4 + 15 ≤ failure.2.toInt
  spaced : ∀ failure ∈ log.retries.head?, ∀ first ∈ log.retries.getLast?,
    first.1 + leastSpread latency skew (log.retries.length - 1) ≤ failure.1

namespace Spread

/-- A job that is not on the retry set has waited since its first failure. -/
theorem elsewhere (spread : Spread options latency skew log)
    (backed : BackedOff latency skew jobID state log) {first : ℤ × Int64}
    (failed : first ∈ log.retries.getLast?) {place : Place} (elsewhere : place ≠ .zset .retry)
    (present : 0 < state.redis.copies jobID place) :
    first.1 + leastSpread latency skew log.retries.length < log.time := by
  obtain ⟨failure, earlier, same⟩ : ∃ failure earlier, log.retries = failure :: earlier := by
    apply List.exists_cons_of_ne_nil
    rintro empty
    rw [empty] at failed
    cases failed
  have last : failure ∈ log.retries.head? := by
    rw [same]
    rfl
  have waited := backed.waited failure last place elsewhere present
  have grown := @leastWait_mono latency skew _ _ (spread.grown failure last)
  have spaced := spread.spaced failure last first failed
  have count : log.retries.length = earlier.length + 1 := by rw [same, List.length_cons]
  rw [count, Nat.add_sub_cancel] at spaced
  rw [count] at grown ⊢
  rw [leastSpread_succ]
  linarith

theorem step (spread : Spread options latency skew log)
    (backed : BackedOff latency skew jobID state log) (few : options.attempts ≤ mostFails + 1)
    (attempted : Attempted registers jobID state (log.stage, log.runs))
    (contract : (identityContract deployment jobID).Everywhere state)
    (holding : Holding deployment state)
    (allowed : FailsByDefault deployment latency skew name jobID (state, log) (time, event))
    (stepped : System.step deployment state event = some next) :
    Spread options latency skew (log.note deployment jobID state (time, event) next) := by
  cases completes : event.completes jobID state with
  | false =>
      have kept : (log.note deployment jobID state (time, event) next).retries = log.retries :=
        RetryLog.retries_of_none (not_completes_of_backoff completes)
      have runs : (log.note deployment jobID state (time, event) next).runs = log.runs := by
        simp only [RetryLog.note, completes, Bool.false_eq_true, ↓reduceIte]
      exact ⟨by rw [kept, runs]; exact spread.counted, by rw [kept]; exact spread.grown,
        by rw [kept]; exact spread.spaced⟩
  | true =>
      have runs : (log.note deployment jobID state (time, event) next).runs = log.runs + 1 := by
        simp only [RetryLog.note, completes, ↓reduceIte]
      obtain ⟨below, retried⟩ :=
        backoff?_of_completes few attempted holding allowed stepped completes
      have counted := spread.counted
      split at retried
      · next more =>
          obtain ⟨completion, _, retried, large, _⟩ := retried
          have added : (log.note deployment jobID state (time, event) next).retries =
            (time, completion.2.2.backoff) :: log.retries := RetryLog.retries_of_some retried
          have length : log.retries.length = log.runs := by omega
          refine ⟨?_, ?_, ?_⟩
          · rw [added, runs, List.length_cons]
            omega
          · rw [added]
            intro failure last
            obtain rfl := Option.some.inj last
            rw [List.length_cons, length]
            exact large
          · rw [added]
            intro failure last first failed
            obtain rfl := Option.some.inj last
            rw [List.length_cons, Nat.add_sub_cancel]
            cases earlier : log.retries.getLast? with
            | none =>
                rw [List.getLast?_eq_none_iff.mp earlier] at failed ⊢
                obtain rfl := Option.some.inj failed
                exact (add_zero time).le
            | some oldest =>
                rw [List.getLast?_cons, earlier] at failed
                obtain rfl := Option.some.inj failed
                obtain ⟨id, index, finish, reply, job, rfl, running, own⟩ :=
                  completes_iff.mp completes
                have here :=
                  placed_of_running backed.tracked contract holding stepped running own
                have waited := spread.elsewhere backed earlier (by simp)
                  (((here _).1 rfl).symm ▸ Nat.one_pos)
                exact (waited.trans_le allowed.ordered).le
      · next last =>
          have kept : (log.note deployment jobID state (time, event) next).retries = log.retries :=
            RetryLog.retries_of_none retried
          refine ⟨?_, by rw [kept]; exact spread.grown, by rw [kept]; exact spread.spaced⟩
          rw [kept, runs]
          omega

end Spread

/-- A dead job has had its last run. -/
theorem Standing.last {dead runs : ℕ} {stage : Stage} (standing : Standing options dead stage runs)
    (died : 0 < dead) : runs = options.attempts := by
  cases standing with
  | fresh none | waiting none | dropped none => exact absurd none died.ne'
  | dead => rfl

section Reachable

variable {pair : State × RetryLog}
  (reached : (retrying deployment jobID).Reachable
    (FailsByDefault deployment latency skew name jobID) pair)

include reached

end Reachable

end Spreading

end System
