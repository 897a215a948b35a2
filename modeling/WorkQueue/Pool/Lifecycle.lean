import WorkQueue.Pool.Reaper

/-! # The life of a worker pool

A pool starts by writing its concurrency caps, then runs its workers, its heartbeat,
its two requeuers and its reaper side by side. Stopping waits for the workers,
requeues what is still in progress, cleans up the locks of the pool, and stops the
other parts one by one, first the heartbeat, which removes itself. A pool may be
started again after it has stopped, and it may crash between any two commands.

`Pool.step` interleaves all parts of one pool on the store, and `Pool.step_cases` says
once what a step can do.
-/

/-- The stages in the life of a pool. -/
inductive Phase where
  | unstarted
  | starting (remaining : List String)
  | running
  | stopping
  | requeueing
  | cleaning
  | removingFromPools
  | removingHeartbeat
  | stoppingRetrier
  | stoppingScheduler
  | stoppingReaper
  | stoppingPeriodic
  | stopped
  | crashed
  deriving DecidableEq

namespace Phase

/-- The stages in which workers take steps. -/
def workersAlive : Phase → Bool
  | .running | .stopping => true
  | _ => false

/-- The stages in which heartbeats are written. -/
def heartbeaterAlive : Phase → Bool
  | .running | .stopping | .requeueing | .cleaning | .removingFromPools => true
  | _ => false

/-- The stages in which the requeuer of a sorted set runs. -/
def requeuerAlive : ZSetKey → Phase → Bool
  | .retry, .running | .retry, .stopping | .retry, .requeueing | .retry, .cleaning
  | .retry, .removingFromPools | .retry, .removingHeartbeat | .retry, .stoppingRetrier => true
  | .scheduled, .running | .scheduled, .stopping | .scheduled, .requeueing
  | .scheduled, .cleaning | .scheduled, .removingFromPools | .scheduled, .removingHeartbeat
  | .scheduled, .stoppingRetrier | .scheduled, .stoppingScheduler => true
  | _, _ => false

/-- The stages in which the reaper runs. -/
def reaperAlive : Phase → Bool
  | .running | .stopping | .requeueing | .cleaning | .removingFromPools | .removingHeartbeat
  | .stoppingRetrier | .stoppingScheduler | .stoppingReaper => true
  | _ => false

/-- The stage after one of the parts that are stopped without a command. -/
def advance : Phase → Option Phase
  | .stoppingRetrier => some .stoppingScheduler
  | .stoppingScheduler => some .stoppingReaper
  | .stoppingReaper => some .stoppingPeriodic
  | .stoppingPeriodic => some .stopped
  | _ => none

end Phase

/-- The heartbeat of a pool: not begun, between beats, or between the two commands of a
beat. -/
inductive Heart where
  | unborn
  | resting (startedAt : Int64)
  | added (startedAt : Int64)
  deriving DecidableEq

/-- Whether the heartbeat is between beats. -/
def Heart.isResting : Heart → Bool
  | .resting _ => true
  | _ => false

/-- The local state of a pool. -/
structure Pool where
  phase : Phase
  workers : List Worker.State
  heart : Heart
  reaper : Reaper.State

namespace Pool

/-- A pool that has not been started. -/
def fresh : Pool := ⟨.unstarted, [], .unborn, .idle⟩

/-- The steps of a pool. A flag tells whether a command is executed whose reply the
pool does not use. -/
inductive Event where
  | start
  | writeConcurrency (name : String) (executed : Bool)
  | launch
  | writeKnownJobs
  | worker (index : ℕ) (event : Worker.Event)
  | beatAdd (now : Int64) (executed : Bool)
  | beatHash (now : Int64) (executed : Bool)
  | requeue (key : ZSetKey) (now : Int64)
  | reaper (event : Reaper.Event)
  | stop
  | workersStopped
  | requeueInProgressJobs (order : List String) (reply : Reply)
  | cleanStaleLockInfo (executed : Bool)
  | removeFromPools (executed : Bool)
  | removeHeartbeat (executed : Bool)
  | advance
  | crash
  deriving DecidableEq

/-- Write the concurrency cap of a job name. -/
def setMaxConcurrency (redis : Store) (name : String) (cap : ℕ) : Store :=
  { redis with maxConcurrency := Function.update redis.maxConcurrency name (some cap) }

/-- Add names to the known jobs. -/
def saddKnownJobs (redis : Store) (names : List String) : Store :=
  { redis with knownJobs := redis.knownJobs ∪ names.toFinset }

/-- Add a pool to the set of pools. -/
def saddPool (redis : Store) (pool : PoolID) : Store :=
  { redis with workerPools := insert pool redis.workerPools }

/-- Write the heartbeat of a pool. -/
def hmsetHeartbeat (redis : Store) (pool : PoolID) (heartbeat : Heartbeat) : Store :=
  { redis with heartbeat := Function.update redis.heartbeat pool (some heartbeat) }

/-- One step of a pool. -/
def step (ns : String) (config : PoolConfig) (poolID : PoolID) (redis : Store) (pool : Pool) :
    Event → Option (Store × Pool)
  | .start =>
      if pool.phase = .unstarted ∨ pool.phase = .stopped then
        some (redis, { pool with phase := .starting config.names })
      else none
  | .writeConcurrency name executed =>
      match pool.phase with
      | .starting remaining =>
          match config.jobType? name with
          | some jobType =>
              if name ∈ remaining then
                some (if executed then setMaxConcurrency redis name jobType.maxConcurrency
                  else redis,
                  { pool with phase := .starting (remaining.erase name) })
              else none
          | none => none
      | _ => none
  | .launch =>
      if pool.phase = .starting [] then
        some (redis, { phase := .running, workers := List.replicate config.concurrency .idle,
                       heart := .unborn, reaper := .idle })
      else none
  | .writeKnownJobs =>
      if pool.phase.reaperAlive then some (saddKnownJobs redis config.names, pool) else none
  | .worker index event =>
      if pool.phase.workersAlive ∧ (event = .stop → pool.phase = .stopping) then
        match pool.workers[index]? with
        | some worker =>
            (Worker.step ns config poolID redis worker event).map fun (next, worker') =>
              (next, { pool with workers := pool.workers.set index worker' })
        | none => none
      else none
  | .beatAdd now executed =>
      if pool.phase.heartbeaterAlive then
        match pool.heart with
        | .unborn =>
            some (if executed then saddPool redis poolID else redis,
              { pool with heart := .added now })
        | .resting startedAt =>
            some (if executed then saddPool redis poolID else redis,
              { pool with heart := .added startedAt })
        | .added _ => none
      else none
  | .beatHash now executed =>
      if pool.phase.heartbeaterAlive then
        match pool.heart with
        | .added startedAt =>
            some (if executed then hmsetHeartbeat redis poolID (config.heartbeat startedAt now)
                else redis, { pool with heart := .resting startedAt })
        | _ => none
      else none
  | .requeue key now =>
      if pool.phase.requeuerAlive key then
        some ((redis.redisLuaZremLpushCmd key config.names now).1, pool)
      else none
  | .reaper event =>
      if pool.phase.reaperAlive then
        (Reaper.step config.names redis pool.reaper event).map fun (next, reaper) =>
          (next, { pool with reaper := reaper })
      else none
  | .stop => if pool.phase = .running then some (redis, { pool with phase := .stopping }) else none
  | .workersStopped =>
      if pool.phase = .stopping ∧ ∀ worker ∈ pool.workers, worker = .stopped then
        some (redis, { pool with phase := .requeueing })
      else none
  | .requeueInProgressJobs order reply =>
      if pool.phase = .requeueing ∧ order.Perm config.names then
        let (next, answer) := reply.deliver redis (redis.redisLuaReenqueueJob poolID order)
        match answer with
        | some (some _) => some (next, pool)
        | _ => some (next, { pool with phase := .cleaning })
      else none
  | .cleanStaleLockInfo executed =>
      if pool.phase = .cleaning then
        some (if executed then redis.redisLuaReapStaleLocks poolID config.names else redis,
          { pool with phase := .removingFromPools })
      else none
  | .removeFromPools executed =>
      if pool.phase = .removingFromPools ∧ pool.heart.isResting then
        some (if executed then Reaper.sremPool redis poolID else redis,
          { pool with phase := .removingHeartbeat })
      else none
  | .removeHeartbeat executed =>
      if pool.phase = .removingHeartbeat then
        some (if executed then Reaper.delHeartbeat redis poolID else redis,
          { pool with phase := .stoppingRetrier })
      else none
  | .advance =>
      if pool.phase = .stoppingReaper → pool.reaper = .idle then
        pool.phase.advance.map fun phase => (redis, { pool with phase := phase })
      else none
  | .crash => some (redis, { pool with phase := .crashed })

/-- What a step of a pool can do. -/
inductive Case (ns : String) (config : PoolConfig) (poolID : PoolID) (redis : Store)
    (pool : Pool) : Event → Store → Pool → Prop
  | started : pool.phase = .unstarted ∨ pool.phase = .stopped →
      Case ns config poolID redis pool .start redis
        { pool with phase := .starting config.names }
  | capped {remaining : List String} {name : String} {jobType : JobType} {executed : Bool} :
      pool.phase = .starting remaining → config.jobType? name = some jobType →
      Case ns config poolID redis pool (.writeConcurrency name executed)
        (if executed then setMaxConcurrency redis name jobType.maxConcurrency else redis)
        { pool with phase := .starting (remaining.erase name) }
  | launched : pool.phase = .starting [] →
      Case ns config poolID redis pool .launch redis
        { phase := .running, workers := List.replicate config.concurrency .idle,
          heart := .unborn, reaper := .idle }
  | known : Case ns config poolID redis pool .writeKnownJobs
      (saddKnownJobs redis config.names) pool
  | worked {index : ℕ} {event : Worker.Event} {worker worker' : Worker.State} {next : Store} :
      pool.phase.workersAlive → (event = .stop → pool.phase = .stopping) →
      pool.workers[index]? = some worker →
      Worker.Case ns config poolID redis worker event next worker' →
      Case ns config poolID redis pool (.worker index event) next
        { pool with workers := pool.workers.set index worker' }
  | added {now startedAt : Int64} {executed : Bool} : pool.phase.heartbeaterAlive →
      pool.heart = .unborn ∧ startedAt = now ∨ pool.heart = .resting startedAt →
      Case ns config poolID redis pool (.beatAdd now executed)
        (if executed then saddPool redis poolID else redis)
        { pool with heart := .added startedAt }
  | beat {now startedAt : Int64} {executed : Bool} : pool.phase.heartbeaterAlive →
      pool.heart = .added startedAt →
      Case ns config poolID redis pool (.beatHash now executed)
        (if executed then hmsetHeartbeat redis poolID (config.heartbeat startedAt now) else redis)
        { pool with heart := .resting startedAt }
  | requeued {key : ZSetKey} {now : Int64} : pool.phase.requeuerAlive key →
      Case ns config poolID redis pool (.requeue key now)
        (redis.redisLuaZremLpushCmd key config.names now).1 pool
  | reaped {event : Reaper.Event} {next : Store} {reaper : Reaper.State} :
      pool.phase.reaperAlive → Reaper.Case config.names redis pool.reaper event next reaper →
      Case ns config poolID redis pool (.reaper event) next { pool with reaper := reaper }
  | stopping : pool.phase = .running →
      Case ns config poolID redis pool .stop redis { pool with phase := .stopping }
  | halted : pool.phase = .stopping → (∀ worker ∈ pool.workers, worker = .stopped) →
      Case ns config poolID redis pool .workersStopped redis { pool with phase := .requeueing }
  | returned {order : List String} {reply : Reply} {name : String} {raw : RawJSON}
      {rest : List RawJSON} : pool.phase = .requeueing → name ∈ config.names → reply ≠ .failed →
      redis.list (.inProgress poolID name) = rest ++ [raw] →
      Case ns config poolID redis pool (.requeueInProgressJobs order reply)
        ((redis.move (.inProgress poolID name) (.jobs name) rest raw).releaseLock name poolID)
        (if reply = .ok then pool else { pool with phase := .cleaning })
  | emptied {order : List String} {reply : Reply} : pool.phase = .requeueing → reply = .ok →
      (∀ name ∈ config.names, redis.list (.inProgress poolID name) = []) →
      Case ns config poolID redis pool (.requeueInProgressJobs order reply) redis
        { pool with phase := .cleaning }
  | unreturned {order : List String} {reply : Reply} : pool.phase = .requeueing → reply ≠ .ok →
      Case ns config poolID redis pool (.requeueInProgressJobs order reply) redis
        { pool with phase := .cleaning }
  | cleaned {executed : Bool} : pool.phase = .cleaning →
      Case ns config poolID redis pool (.cleanStaleLockInfo executed)
        (if executed then redis.redisLuaReapStaleLocks poolID config.names else redis)
        { pool with phase := .removingFromPools }
  | removed {executed : Bool} : pool.phase = .removingFromPools → pool.heart.isResting →
      Case ns config poolID redis pool (.removeFromPools executed)
        (if executed then Reaper.sremPool redis poolID else redis)
        { pool with phase := .removingHeartbeat }
  | forgotten {executed : Bool} : pool.phase = .removingHeartbeat →
      Case ns config poolID redis pool (.removeHeartbeat executed)
        (if executed then Reaper.delHeartbeat redis poolID else redis)
        { pool with phase := .stoppingRetrier }
  | advanced {phase : Phase} : pool.phase.advance = some phase →
      (pool.phase = .stoppingReaper → pool.reaper = .idle) →
      Case ns config poolID redis pool .advance redis { pool with phase := phase }
  | crashed : Case ns config poolID redis pool .crash redis { pool with phase := .crashed }

section StepCases

variable {ns : String} {config : PoolConfig} {poolID : PoolID} {redis next : Store}
  {pool pool' : Pool}

private theorem requeueInProgressJobs_cases {order : List String} {reply : Reply}
    (stepped : step ns config poolID redis pool (.requeueInProgressJobs order reply) =
      some (next, pool')) :
    Case ns config poolID redis pool (.requeueInProgressJobs order reply) next pool' := by
  obtain ⟨ready, stepped⟩ := Option.ite_none_right_eq_some.mp stepped
  obtain ⟨phase, listed⟩ := ready
  rcases redis.redisLuaReenqueueJob_cases poolID order with
    ⟨nothing, empty⟩ | ⟨name, raw, rest, member, split, moved⟩
  · rw [nothing] at stepped
    cases reply <;> cases stepped
    · exact .emptied phase rfl fun name known => empty name (listed.mem_iff.mpr known)
    · exact .unreturned phase (by decide)
    · exact .unreturned phase (by decide)
  · rw [moved] at stepped
    have known : name ∈ config.names := listed.mem_iff.mp member
    cases reply <;> cases stepped
    · exact .returned phase known (by decide) split
    · exact .returned phase known (by decide) split
    · exact .unreturned phase (by decide)

theorem step_cases {event : Event}
    (stepped : step ns config poolID redis pool event = some (next, pool')) :
    Case ns config poolID redis pool event next pool' := by
  cases event with
  | start =>
      obtain ⟨ready, ⟨⟩⟩ := Option.ite_none_right_eq_some.mp stepped
      exact .started ready
  | writeConcurrency name executed =>
      simp only [step] at stepped
      split at stepped
      · next remaining phase =>
          split at stepped
          · next jobType registered =>
              split at stepped
              · cases stepped
                exact .capped phase registered
              · cases stepped
          · cases stepped
      · cases stepped
  | launch =>
      obtain ⟨ready, ⟨⟩⟩ := Option.ite_none_right_eq_some.mp stepped
      exact .launched ready
  | writeKnownJobs =>
      obtain ⟨-, ⟨⟩⟩ := Option.ite_none_right_eq_some.mp stepped
      exact .known
  | worker index event =>
      obtain ⟨ready, stepped⟩ := Option.ite_none_right_eq_some.mp stepped
      split at stepped
      · next worker present =>
          obtain ⟨⟨after, worker'⟩, moved, same⟩ := Option.map_eq_some_iff.mp stepped
          cases same
          exact .worked ready.1 ready.2 present (Worker.step_cases moved)
      · cases stepped
  | beatAdd now executed =>
      obtain ⟨alive, stepped⟩ := Option.ite_none_right_eq_some.mp stepped
      split at stepped
      · next unborn =>
          cases stepped
          exact .added alive (.inl ⟨unborn, rfl⟩)
      · next startedAt resting =>
          cases stepped
          exact .added alive (.inr resting)
      · cases stepped
  | beatHash now executed =>
      obtain ⟨alive, stepped⟩ := Option.ite_none_right_eq_some.mp stepped
      split at stepped
      · next startedAt added =>
          cases stepped
          exact .beat alive added
      · cases stepped
  | requeue key now =>
      obtain ⟨alive, ⟨⟩⟩ := Option.ite_none_right_eq_some.mp stepped
      exact .requeued alive
  | reaper event =>
      obtain ⟨alive, stepped⟩ := Option.ite_none_right_eq_some.mp stepped
      obtain ⟨⟨after, reaper⟩, moved, same⟩ := Option.map_eq_some_iff.mp stepped
      cases same
      exact .reaped alive (Reaper.step_cases moved)
  | stop =>
      obtain ⟨ready, ⟨⟩⟩ := Option.ite_none_right_eq_some.mp stepped
      exact .stopping ready
  | workersStopped =>
      obtain ⟨ready, ⟨⟩⟩ := Option.ite_none_right_eq_some.mp stepped
      exact .halted ready.1 ready.2
  | requeueInProgressJobs order reply => exact requeueInProgressJobs_cases stepped
  | cleanStaleLockInfo executed =>
      obtain ⟨ready, ⟨⟩⟩ := Option.ite_none_right_eq_some.mp stepped
      exact .cleaned ready
  | removeFromPools executed =>
      obtain ⟨ready, ⟨⟩⟩ := Option.ite_none_right_eq_some.mp stepped
      exact .removed ready.1 ready.2
  | removeHeartbeat executed =>
      obtain ⟨ready, ⟨⟩⟩ := Option.ite_none_right_eq_some.mp stepped
      exact .forgotten ready
  | advance =>
      obtain ⟨ready, stepped⟩ := Option.ite_none_right_eq_some.mp stepped
      obtain ⟨phase, moved, same⟩ := Option.map_eq_some_iff.mp stepped
      cases same
      exact .advanced moved ready
  | crash =>
      cases stepped
      exact .crashed

end StepCases

end Pool
