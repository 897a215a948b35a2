import WorkQueue.Redis.Scripts

/-! # Workers

A worker fetches one job at a time. The job of a unique key is looked up under the
key and replaced by the updated job found there, the key is deleted, the handler
runs, and one transaction removes the payload from the jobs in progress, returns
its lock and puts a failed job on the retry set or among the dead jobs.

Every Redis command is one step, and its reply may be lost although the command was
executed, or the command may fail without being executed (`Reply`). What a step can
do is said once by `Worker.step_cases`.
-/

/-- What becomes of a command: it is executed and answered, executed but its answer
does not arrive, or not executed. -/
inductive Reply where
  | ok
  | lost
  | failed
  deriving DecidableEq

/-- The store after a command and what the sender learns of its result. -/
def Reply.deliver {Answer : Type} (reply : Reply) (redis : Store) (executed : Store × Answer) :
    Store × Option Answer :=
  match reply with
  | .ok => (executed.1, some executed.2)
  | .lost => (executed.1, none)
  | .failed => (redis, none)

/-- The options of a job type. The backoff is a choice of the run. -/
structure JobOptions where
  priority : UInt64 := 0
  maxFails : UInt64 := 0
  skipDead : Bool := false
  maxConcurrency : ℕ := 0
  deriving DecidableEq

/-- Fill in the defaults. Too large a priority is refused. -/
def applyDefaultsAndValidate (options : JobOptions) : Option JobOptions :=
  let priority := if options.priority = 0 then 1 else options.priority
  let maxFails := if options.maxFails = 0 then 4 else options.maxFails
  if priority > 100000 then none else some { options with priority, maxFails }

/-- A registered job name with its options. -/
structure JobType extends JobOptions where
  name : String
  deriving DecidableEq

/-- What a worker pool is created with. The job types form a map. -/
structure PoolConfig where
  jobTypes : List JobType
  distinct : (jobTypes.map JobType.name).Nodup
  concurrency : ℕ
  workerIDs : List String
  host : String
  pid : ℕ

namespace PoolConfig

/-- The registered job names. -/
def names (config : PoolConfig) : List String := config.jobTypes.map JobType.name

/-- The job type registered under a name. -/
def jobType? (config : PoolConfig) (name : String) : Option JobType :=
  config.jobTypes.find? fun jobType => jobType.name = name

end PoolConfig

/-- How the run of a handler ends: the job as the handler leaves it, whether its
arguments can still be encoded, the error it returns if any, and the clock readings
and the backoff that follow. -/
structure Finish where
  after : Job
  marshals : Bool
  error : Option String
  failedAt : Int64
  now : Int64
  backoff : Int64
  deriving DecidableEq

/-- What the completing transaction adds: nothing, or a payload with its score. -/
abbrev TerminateOp := Option (ZSetKey × Int64 × RawJSON)

namespace Worker

/-- Put a failed job on the retry set, unless it cannot be encoded. -/
def terminateAndRetry (finish : Finish) (marshals : Bool) (job : Job) : TerminateOp :=
  if marshals then some (.retry, finish.now + finish.backoff, .json job.serialize) else none

/-- Put a failed job among the dead jobs, unless it cannot be encoded. -/
def terminateAndDead (finish : Finish) (marshals : Bool) (job : Job) : TerminateOp :=
  if marshals then some (.dead, finish.now, .json job.serialize) else none

/-- What becomes of a failed job. -/
def jobFate (jobType : Option JobType) (finish : Finish) (marshals : Bool) (job : Job) :
    TerminateOp :=
  match jobType with
  | some jobType =>
      if 0 < jobType.maxFails.toInt64 - job.fails then terminateAndRetry finish marshals job
      else if jobType.skipDead then none
      else terminateAndDead finish marshals job
  | none => terminateAndDead finish marshals job

/-- The job after its run and what the completing transaction adds. A job without a
handler is not run and fails. -/
def processJob (config : PoolConfig) (job : Job) (finish : Finish) : Job × TerminateOp :=
  match config.jobType? job.name with
  | none =>
      let failed := job.failed "stray job: no handler" finish.failedAt
      (failed, jobFate none finish true failed)
  | some jobType =>
      match finish.error with
      | none => (finish.after, none)
      | some message =>
          let failed := finish.after.failed message finish.failedAt
          (failed, jobFate (some jobType) finish finish.marshals failed)

/-- What a completing transaction adds is the encoding of the job after its run. -/
theorem processJob_written {config : PoolConfig} {job : Job} {finish : Finish} {key : ZSetKey}
    {score : Int64} {raw : RawJSON}
    (written : (processJob config job finish).2 = some (key, score, raw)) :
    raw = .json (processJob config job finish).1.serialize ∧ (key = .retry ∨ key = .dead) := by
  have retried : ∀ marshals failed, terminateAndRetry finish marshals failed =
      some (key, score, raw) → raw = .json failed.serialize ∧ (key = .retry ∨ key = .dead) := by
    intro marshals failed same
    unfold terminateAndRetry at same
    obtain ⟨-, same⟩ := Option.ite_none_right_eq_some.mp same
    cases same
    exact ⟨rfl, .inl rfl⟩
  have died : ∀ marshals failed, terminateAndDead finish marshals failed =
      some (key, score, raw) → raw = .json failed.serialize ∧ (key = .retry ∨ key = .dead) := by
    intro marshals failed same
    unfold terminateAndDead at same
    obtain ⟨-, same⟩ := Option.ite_none_right_eq_some.mp same
    cases same
    exact ⟨rfl, .inr rfl⟩
  have fated : ∀ jobType marshals failed, jobFate jobType finish marshals failed =
      some (key, score, raw) → raw = .json failed.serialize ∧ (key = .retry ∨ key = .dead) := by
    intro jobType marshals failed same
    unfold jobFate at same
    split at same
    · split at same
      · exact retried marshals failed same
      · split at same
        · cases same
        · exact died marshals failed same
    · exact died marshals failed same
  cases registered : config.jobType? job.name with
  | none =>
      simp only [processJob, registered] at written ⊢
      exact fated none true _ written
  | some jobType =>
      cases outcome : finish.error with
      | none => simp only [processJob, registered, outcome, reduceCtorEq] at written
      | some message =>
          simp only [processJob, registered, outcome] at written ⊢
          exact fated _ _ _ written

/-- A handler that leaves the identity of its job alone. -/
def Finish.KeepsIdentity (finish : Finish) (job : Job) : Prop :=
  finish.after = { job with args := finish.after.args }

instance (finish : Finish) (job : Job) : Decidable (Finish.KeepsIdentity finish job) :=
  inferInstanceAs (Decidable (finish.after = { job with args := finish.after.args }))

/-- The job after its run is the one before it in every field that identifies it. -/
theorem processJob_identity {config : PoolConfig} {job : Job} {finish : Finish}
    (kept : Finish.KeepsIdentity finish job) :
    (processJob config job finish).1.name = job.name ∧
      (processJob config job finish).1.id = job.id ∧
      (processJob config job finish).1.unique = job.unique ∧
      (processJob config job finish).1.uniqueKey = job.uniqueKey := by
  cases registered : config.jobType? job.name with
  | none =>
      simp only [processJob, registered, Job.failed, and_self]
  | some jobType =>
      cases outcome : finish.error with
      | none =>
          simp only [processJob, registered, outcome]
          rw [kept]
          exact ⟨rfl, rfl, rfl, rfl⟩
      | some message =>
          simp only [processJob, registered, outcome, Job.failed]
          rw [kept]
          exact ⟨rfl, rfl, rfl, rfl⟩

/-- The completing transaction. The lock is that of the job's own name. -/
def removeJobFromInProgress (redis : Store) (poolID : PoolID) (inProgQueue : ListKey)
    (jobName : String) (fate : TerminateOp) (dequeuedRawJSON : RawJSON) : Store :=
  let released := (redis.lrem inProgQueue dequeuedRawJSON).releaseLock jobName poolID
  match fate with
  | none => released
  | some (key, score, raw) => released.zadd key score.toInt raw

section RemoveJob

variable (redis : Store) (poolID : PoolID) (inProgQueue : ListKey) (jobName : String)
  (fate : TerminateOp) (raw : RawJSON)

theorem list_removeJobFromInProgress :
    (removeJobFromInProgress redis poolID inProgQueue jobName fate raw).list =
      (redis.lrem inProgQueue raw).list := by
  unfold removeJobFromInProgress
  cases fate <;> rfl

theorem ledger_removeJobFromInProgress (name : String) :
    (removeJobFromInProgress redis poolID inProgQueue jobName fate raw).ledger name =
      (redis.releaseLock jobName poolID).ledger name := by
  unfold removeJobFromInProgress
  cases fate <;> rfl

theorem unique_removeJobFromInProgress :
    (removeJobFromInProgress redis poolID inProgQueue jobName fate raw).unique = redis.unique := by
  unfold removeJobFromInProgress
  cases fate <;> rfl

/-- The completion of a job leaves the scheduled jobs alone. -/
theorem zset_scheduled_removeJobFromInProgress (config : PoolConfig) (job : Job)
    (finish : Finish) :
    (removeJobFromInProgress redis poolID inProgQueue jobName (processJob config job finish).2
      raw).zset .scheduled = redis.zset .scheduled := by
  unfold removeJobFromInProgress
  cases fate : (processJob config job finish).2 with
  | none => rfl
  | some written =>
      obtain ⟨target, score, bytes⟩ := written
      have apart : ZSetKey.scheduled ≠ target := by
        rintro rfl
        rcases (processJob_written fate).2 with impossible | impossible
        · cases impossible
        · cases impossible
      simp only [Store.zadd, Function.update_of_ne apart]
      rfl

end RemoveJob

/-- The unique key of a job, computed from its arguments if it carries none. -/
def uniqueKey (ns : String) (job : Job) : String :=
  if job.uniqueKey = "" then redisKeyUniqueJob ns job.name job.args else job.uniqueKey

/-- The job found under a unique key in place of the one on the queue. -/
def updatedJob (job : FetchedJob) (rawJSON : RawJSON) : FetchedJob :=
  if rawJSON = .placeholder then job
  else (newJob rawJSON job.dequeuedFrom job.inProgQueue).getD job

/-- The states of a worker: between jobs, holding a unique job before and after
reading its key, running a handler, stopped. -/
inductive State where
  | idle
  | fetched (job : FetchedJob)
  | gotUnique (job : FetchedJob) (rawJSON : RawJSON)
  | running (job : FetchedJob) (dequeuedRawJSON : RawJSON)
  | stopped
  deriving DecidableEq

/-- The steps of a worker. A fetch tries the queues in the sampled order. -/
inductive Event where
  | fetch (order : List String) (reply : Reply)
  | getUnique (reply : Reply)
  | delUnique (reply : Reply)
  | finish (finish : Finish) (reply : Reply)
  | stop
  deriving DecidableEq

/-- A fetched payload that decodes is processed; every other answer is dropped. -/
def received : Option (Option (RawJSON × ListKey × ListKey)) → State
  | some (some (rawJSON, dequeuedFrom, inProgQueue)) =>
      match newJob rawJSON dequeuedFrom inProgQueue with
      | none => .idle
      | some job => if job.unique then .fetched job else .running job job.rawJSON
  | _ => .idle

theorem received_some (rawJSON : RawJSON) (dequeuedFrom inProgQueue : ListKey) :
    received (some (some (rawJSON, dequeuedFrom, inProgQueue))) =
      match newJob rawJSON dequeuedFrom inProgQueue with
      | none => .idle
      | some job => if job.unique then .fetched job else .running job job.rawJSON := rfl

/-- One step of a worker. -/
def step (ns : String) (config : PoolConfig) (poolID : PoolID) (redis : Store) :
    State → Event → Option (Store × State)
  | .idle, .fetch order reply =>
      if order.Perm config.names then
        let (next, answer) := reply.deliver redis (redis.redisLuaFetchJob poolID order)
        some (next, received answer)
      else none
  | .fetched job, .getUnique reply =>
      let (next, answer) :=
        reply.deliver redis (redis, redis.unique (uniqueKey ns job.toJob))
      match answer with
      | some (some rawJSON) => some (next, .gotUnique job rawJSON)
      | _ => some (next, .running job job.rawJSON)
  | .gotUnique job rawJSON, .delUnique reply =>
      let (next, answer) :=
        reply.deliver redis (redis.setUnique (uniqueKey ns job.toJob) none, ())
      match answer with
      | some () => some (next, .running (updatedJob job rawJSON) job.rawJSON)
      | none => some (next, .running job job.rawJSON)
  | .running job dequeuedRawJSON, .finish finish reply =>
      let (after, fate) := processJob config job.toJob finish
      let (next, _) := reply.deliver redis
        (removeJobFromInProgress redis poolID job.inProgQueue after.name fate dequeuedRawJSON, ())
      some (next, .idle)
  | .idle, .stop => some (redis, .stopped)
  | _, _ => none

/-- What a step of a worker can do. -/
inductive Case (ns : String) (config : PoolConfig) (poolID : PoolID) (redis : Store) :
    State → Event → Store → State → Prop
  | nothing {order : List String} {reply : Reply} :
      (reply ≠ .failed → (redis.redisLuaFetchJob poolID order).2 = none) →
      Case ns config poolID redis .idle (.fetch order reply) redis .idle
  | taken {order : List String} {reply : Reply} {name : String} {raw : RawJSON}
      {rest : List RawJSON} : name ∈ config.names → reply ≠ .failed →
      redis.list (.jobs name) = rest ++ [raw] → redis.paused name = false → redis.canRun name →
      (redis.redisLuaFetchJob poolID order).2 =
        some (raw, .jobs name, .inProgress poolID name) →
      Case ns config poolID redis .idle (.fetch order reply)
        ((redis.acquireLock name poolID).move (.jobs name) (.inProgress poolID name) rest raw)
        (if reply = .ok then received (some (some (raw, .jobs name, .inProgress poolID name)))
          else .idle)
  | got {job : FetchedJob} {rawJSON : RawJSON} :
      redis.unique (uniqueKey ns job.toJob) = some rawJSON →
      Case ns config poolID redis (.fetched job) (.getUnique .ok) redis (.gotUnique job rawJSON)
  | missed {job : FetchedJob} {reply : Reply} :
      (reply = .ok → redis.unique (uniqueKey ns job.toJob) = none) →
      Case ns config poolID redis (.fetched job) (.getUnique reply) redis
        (.running job job.rawJSON)
  | deleted {job : FetchedJob} {rawJSON : RawJSON} :
      Case ns config poolID redis (.gotUnique job rawJSON) (.delUnique .ok)
        (redis.setUnique (uniqueKey ns job.toJob) none)
        (.running (updatedJob job rawJSON) job.rawJSON)
  | unanswered {job : FetchedJob} {rawJSON : RawJSON} :
      Case ns config poolID redis (.gotUnique job rawJSON) (.delUnique .lost)
        (redis.setUnique (uniqueKey ns job.toJob) none) (.running job job.rawJSON)
  | undeleted {job : FetchedJob} {rawJSON : RawJSON} :
      Case ns config poolID redis (.gotUnique job rawJSON) (.delUnique .failed) redis
        (.running job job.rawJSON)
  | finished {job : FetchedJob} {raw : RawJSON} {finish : Finish} {reply : Reply} :
      reply ≠ .failed →
      Case ns config poolID redis (.running job raw) (.finish finish reply)
        (removeJobFromInProgress redis poolID job.inProgQueue
          (processJob config job.toJob finish).1.name (processJob config job.toJob finish).2 raw)
        .idle
  | unfinished {job : FetchedJob} {raw : RawJSON} {finish : Finish} :
      Case ns config poolID redis (.running job raw) (.finish finish .failed) redis .idle
  | stopped : Case ns config poolID redis .idle .stop redis .stopped

theorem step_cases {ns : String} {config : PoolConfig} {poolID : PoolID} {redis next : Store}
    {worker worker' : State} {event : Event}
    (stepped : step ns config poolID redis worker event = some (next, worker')) :
    Case ns config poolID redis worker event next worker' := by
  unfold step at stepped
  split at stepped
  · next order reply =>
      obtain ⟨sampled, stepped⟩ := Option.ite_none_right_eq_some.mp stepped
      rcases redis.redisLuaFetchJob_cases poolID order with
        nothing | ⟨name, raw, rest, member, split, unpaused, runnable, taken⟩
      · rw [nothing] at stepped
        cases reply <;> cases stepped <;> exact .nothing fun _ => by rw [nothing]
      · rw [taken] at stepped
        have known : name ∈ config.names := sampled.mem_iff.mp member
        cases reply with
        | ok | lost =>
            cases stepped
            exact .taken known (by decide) split unpaused runnable (by rw [taken])
        | failed =>
            cases stepped
            exact .nothing fun executed => (executed rfl).elim
  · next job reply =>
      cases reply with
      | ok =>
          cases found : redis.unique (uniqueKey ns job.toJob) with
          | none =>
              rw [found] at stepped
              cases stepped
              exact .missed fun _ => found
          | some rawJSON =>
              rw [found] at stepped
              cases stepped
              exact .got found
      | lost | failed =>
          cases stepped
          exact .missed fun impossible => by cases impossible
  · next job rawJSON reply =>
      cases reply with
      | ok =>
          cases stepped
          exact .deleted
      | lost =>
          cases stepped
          exact .unanswered
      | failed =>
          cases stepped
          exact .undeleted
  · next job raw finish reply =>
      cases reply with
      | ok | lost =>
          cases stepped
          exact .finished (by decide)
      | failed =>
          cases stepped
          exact .unfinished
  · cases stepped
    exact .stopped
  · cases stepped

end Worker
