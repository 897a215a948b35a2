import WorkQueue.Foundation.Transition
import WorkQueue.Pool.Lifecycle

/-! # The whole system

Any number of worker pools share one store with enqueuers and clients. An event is
one Redis command of one party, with every choice the party makes: identifiers, clock
readings, the sampled order of the queues, the outcome of a handler, and whether a
reply arrives. A bulk enqueue is the sequence of its commands, and a client that
retries dead jobs uses names it has read from the known jobs before.
-/

namespace Enqueuer

/-- The commands of an enqueuer. -/
inductive Call where
  | enqueue (jobName id : String) (now : Int64) (args : Args)
  | enqueueAt (jobName id : String) (now : Int64) (args : Args) (epochSeconds : Int64)
  | enqueueUnique (jobName id : String) (now : Int64) (args keyMap : Args)
      (runAt : Option Int64)
  | addToKnownJobs (jobName : String)
  deriving DecidableEq

/-- The job that an enqueuer writes. -/
def plainJob (jobName id : String) (now : Int64) (args : Args) : Job :=
  { name := jobName, id := id, enqueuedAt := now, args := args }

/-- The unique job that an enqueuer writes. Without a key map its key is made of its
arguments. -/
def uniqueJob (ns jobName id : String) (now : Int64) (args keyMap : Args) : Job :=
  { plainJob jobName id now args with
    unique := true
    uniqueKey := redisKeyUniqueJob ns jobName (keyMap.orElse fun _ => args) }

/-- What a unique key is set to: the job itself if its key does not determine its
arguments. -/
def updatedValue (keyMap : Args) (job : Job) : RawJSON :=
  match keyMap with
  | none => .placeholder
  | some _ => .json job.serialize

/-- Execute a command of an enqueuer. -/
def execute (ns : String) (redis : Store) : Call → Store
  | .enqueue jobName id now args =>
      redis.lpush (.jobs jobName) (.json (plainJob jobName id now args).serialize)
  | .enqueueAt jobName id now args epochSeconds =>
      redis.zadd .scheduled epochSeconds.toInt (.json (plainJob jobName id now args).serialize)
  | .enqueueUnique jobName id now args keyMap runAt =>
      let job := uniqueJob ns jobName id now args keyMap
      match runAt with
      | none =>
          (redis.redisLuaEnqueueUnique jobName job.uniqueKey (.json job.serialize)
            (updatedValue keyMap job)).1
      | some epochSeconds =>
          (redis.redisLuaEnqueueUniqueIn job.uniqueKey (.json job.serialize)
            (updatedValue keyMap job) epochSeconds).1
  | .addToKnownJobs jobName => Pool.saddKnownJobs redis [jobName]

/-- A unique call sets its key, and adds the job to its queue or to the scheduled jobs if the
key was free. -/
@[elab_as_elim]
theorem execute_unique_rec {motive : Store → Prop} {ns : String} {redis : Store}
    {jobName id : String} {now : Int64} {args keyMap : Args} {job : Job} {keyed : Store}
    (built : uniqueJob ns jobName id now args keyMap = job)
    (set : redis.setUnique job.uniqueKey (some (updatedValue keyMap job)) = keyed)
    (duplicate : motive keyed) (queued : motive (keyed.lpush (.jobs jobName) (.json job.serialize)))
    (scheduled : ∀ epochSeconds : Int64,
      motive (keyed.zadd .scheduled epochSeconds.toInt (.json job.serialize)))
    (runAt : Option Int64) :
    motive (execute ns redis (.enqueueUnique jobName id now args keyMap runAt)) := by
  subst built set
  cases runAt with
  | none =>
      simp only [execute, Store.redisLuaEnqueueUnique]
      split
      · exact queued
      · exact duplicate
  | some epochSeconds =>
      simp only [execute, Store.redisLuaEnqueueUniqueIn]
      split
      · exact scheduled epochSeconds
      · exact duplicate

end Enqueuer

namespace Client

/-- The commands of a client. -/
inductive Call where
  | deleteZsetJob (key : ZSetKey) (zscore : Int64) (jobID : String)
  | deleteUniqueKey (uniqueKey : String)
  | retryDeadJob (jobNames : List String) (now diedAt : Int64) (jobID : String)
  | retryAllDeadJobs (jobNames : List String) (now : Int64)
  | deleteAllDeadJobs
  deriving DecidableEq

/-- Execute a command of a client, if it has read its job names. -/
def execute (redis : Store) : Call → Option Store
  | .deleteZsetJob key zscore jobID => some (redis.redisLuaDeleteSingleCmd key zscore jobID).1
  | .deleteUniqueKey uniqueKey => some (redis.setUnique uniqueKey none)
  | .retryDeadJob jobNames now diedAt jobID =>
      if jobNames.toFinset ⊆ redis.knownJobs then
        some (redis.redisLuaRequeueSingleDeadCmd jobNames now diedAt jobID).1
      else none
  | .retryAllDeadJobs jobNames now =>
      if jobNames.toFinset ⊆ redis.knownJobs then
        some (redis.redisLuaRequeueAllDeadCmd jobNames now 1000).1
      else none
  | .deleteAllDeadJobs =>
      some { redis with zset := Function.update redis.zset .dead .empty }

/-- What a command does. -/
inductive Case (redis : Store) : Call → Store → Prop
  | deleted {key : ZSetKey} {zscore : Int64} {jobID : String} :
      Case redis (.deleteZsetJob key zscore jobID)
        (redis.redisLuaDeleteSingleCmd key zscore jobID).1
  | freed {uniqueKey : String} :
      Case redis (.deleteUniqueKey uniqueKey) (redis.setUnique uniqueKey none)
  | retried {call : Call} {jobNames : List String} {now : Int64} {raws : List RawJSON}
      {next : Store} :
      (∃ diedAt jobID, call = .retryDeadJob jobNames now diedAt jobID) ∨
        call = .retryAllDeadJobs jobNames now →
      raws.Sublist (redis.zset .dead).members → Store.RequeueRun jobNames now raws redis next →
      Case redis call next
  | cleared : Case redis .deleteAllDeadJobs
      { redis with zset := Function.update redis.zset .dead .empty }

theorem execute_cases {redis next : Store} {call : Call}
    (executed : execute redis call = some next) : Case redis call next := by
  cases call with
  | deleteZsetJob =>
      cases executed
      exact .deleted
  | deleteUniqueKey =>
      cases executed
      exact .freed
  | retryDeadJob jobNames now diedAt jobID =>
      obtain ⟨-, same⟩ := Option.ite_none_right_eq_some.mp executed
      cases same
      exact .retried (.inl ⟨_, _, rfl⟩) (SortedSet.withScore_sublist _ _)
        (Store.requeueRun_requeueLoop _ _ _)
  | retryAllDeadJobs jobNames now =>
      obtain ⟨-, same⟩ := Option.ite_none_right_eq_some.mp executed
      cases same
      exact .retried (.inr rfl) ((List.take_sublist _ _).trans (SortedSet.upTo_sublist _ _))
        (Store.requeueRun_requeueLoop _ _ _)
  | deleteAllDeadJobs =>
      cases executed
      exact .cleared

end Client

/-- The namespace of a deployment and what each of its pools is created with. -/
structure Deployment where
  ns : String
  pool : PoolID → PoolConfig

namespace System

/-- The store and the local states of the pools. -/
structure State where
  redis : Store
  pools : PoolID → Pool

/-- The events of the system. An operator may pause a queue, and other programs may
push any bytes. -/
inductive Event where
  | pool (id : PoolID) (event : Pool.Event)
  | enqueuer (call : Enqueuer.Call)
  | client (call : Client.Call)
  | pause (jobName : String) (paused : Bool)
  | push (jobName : String) (raw : RawJSON)
  deriving DecidableEq

/-- One step of the system. -/
def step (deployment : Deployment) (state : State) : Event → Option State
  | .pool id event =>
      (Pool.step deployment.ns (deployment.pool id) id state.redis (state.pools id) event).map
        fun (redis, pool) => ⟨redis, Function.update state.pools id pool⟩
  | .enqueuer call => some { state with redis := Enqueuer.execute deployment.ns state.redis call }
  | .client call => (Client.execute state.redis call).map fun redis => { state with redis := redis }
  | .pause jobName paused =>
      some { state with
        redis := { state.redis with
          paused := Function.update state.redis.paused jobName paused } }
  | .push jobName raw => some { state with redis := state.redis.lpush (.jobs jobName) raw }

/-- The system starts without jobs, locks, unique keys and pools. Caps, pauses and
known jobs may be left from earlier. -/
structure Initial (state : State) : Prop where
  list : ∀ key, state.redis.list key = []
  zset : ∀ key, state.redis.zset key = .empty
  lock : ∀ name, state.redis.lock name = none
  lockInfo : ∀ name, state.redis.lockInfo name = .empty
  unique : ∀ key, state.redis.unique key = none
  workerPools : state.redis.workerPools = ∅
  heartbeat : ∀ pool, state.redis.heartbeat pool = none
  pools : ∀ pool, state.pools pool = Pool.fresh

/-- The transition system of a deployment. -/
def system (deployment : Deployment) : TransitionSystem State Event where
  initial := Initial
  step := step deployment

/-- The initial state without caps, pauses and known jobs. -/
def emptyState : State where
  redis :=
    { list := fun _ => [], zset := fun _ => .empty, paused := fun _ => false,
      lock := fun _ => none, lockInfo := fun _ => .empty, maxConcurrency := fun _ => none,
      unique := fun _ => none, knownJobs := ∅, workerPools := ∅, heartbeat := fun _ => none }
  pools := fun _ => Pool.fresh

theorem initial_emptyState : Initial emptyState :=
  ⟨fun _ => rfl, fun _ => rfl, fun _ => rfl, fun _ => rfl, fun _ => rfl, rfl, fun _ => rfl,
    fun _ => rfl⟩

/-- A deployment whose pools register one job name, of which one job may run at a time. -/
def single : Deployment where
  ns := "work"
  pool _ :=
    { jobTypes := [{ name := "send", priority := 1, maxFails := 4, maxConcurrency := 1 }]
      distinct := by decide
      concurrency := 1, workerIDs := ["w"], host := "host", pid := 1 }

/-- The start of a pool that registers some names, up to its first heartbeat. -/
def boot (names : List String) (id : PoolID) : List Event :=
  [.pool id .start] ++ names.map (fun name => .pool id (.writeConcurrency name true)) ++
    [.pool id .launch, .pool id (.beatAdd 0 true), .pool id (.beatHash 0 true)]

section StepCases

variable {deployment : Deployment} {state next : State}

/-- A step of a pool changes the store and that pool. -/
theorem step_pool {id : PoolID} {event : Pool.Event}
    (stepped : step deployment state (.pool id event) = some next) :
    ∃ pool, next.pools = Function.update state.pools id pool ∧
      Pool.Case deployment.ns (deployment.pool id) id state.redis (state.pools id) event
        next.redis pool := by
  obtain ⟨⟨redis, pool⟩, moved, rfl⟩ := Option.map_eq_some_iff.mp stepped
  exact ⟨pool, rfl, Pool.step_cases moved⟩

/-- Every other step changes only the store. -/
theorem step_pools {event : Event} (stepped : step deployment state event = some next)
    (elsewhere : ∀ id poolEvent, event ≠ .pool id poolEvent) : next.pools = state.pools := by
  cases event with
  | pool id poolEvent => exact (elsewhere id poolEvent rfl).elim
  | enqueuer call | pause jobName paused | push jobName raw =>
      cases stepped
      rfl
  | client call =>
      obtain ⟨redis, _, rfl⟩ := Option.map_eq_some_iff.mp stepped
      rfl

end StepCases

end System
