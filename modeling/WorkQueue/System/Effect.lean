import WorkQueue.System

/-! # Which steps touch what pools hold

What pools hold is recorded in the lists of jobs in progress and in the ledgers of the
locks. Six kinds of steps touch them: a fetch, the completion of a job, the requeueing
of a job and the clean-up of a pool's locks, the last two by the pool that stops or by a
reaper. Every other step leaves them alone (`System.step_touch`).
-/

namespace Store

/-- The jobs in progress and the ledgers agree. -/
structure SameHoldings (before after : Store) : Prop where
  progress : ∀ pool name,
    after.list (.inProgress pool name) = before.list (.inProgress pool name)
  ledgers : ∀ name, after.ledger name = before.ledger name

namespace SameHoldings

variable {before after : Store}

theorem refl (store : Store) : store.SameHoldings store := ⟨fun _ _ => rfl, fun _ => rfl⟩

theorem trans {first second third : Store} (left : first.SameHoldings second)
    (right : second.SameHoldings third) : first.SameHoldings third :=
  ⟨fun pool name => (right.progress pool name).trans (left.progress pool name),
    fun name => (right.ledgers name).trans (left.ledgers name)⟩

theorem of_eq (list : after.list = before.list) (lock : after.lock = before.lock)
    (lockInfo : after.lockInfo = before.lockInfo) : before.SameHoldings after := by
  refine ⟨?_, ?_⟩
  · intro pool name
    rw [list]
  · intro name
    rw [ledger, ledger, lock, lockInfo]

end SameHoldings

theorem SameButQueues.sameHoldings {before after : Store} (same : before.SameButQueues after) :
    before.SameHoldings after := by
  refine ⟨same.progress, ?_⟩
  intro name
  rw [same.frame]
  rfl

end Store

namespace System

variable {deployment : Deployment} {state next : State} {event : Event}

/-- How a step touches the jobs in progress and the ledgers. -/
inductive Touch (deployment : Deployment) (state next : State) (event : Event) : Prop
  | quiet : state.redis.SameHoldings next.redis → Touch deployment state next event
  | taken {id : PoolID} {index : ℕ} {order : List String} {reply : Reply} {name : String}
      {raw : RawJSON} {rest : List RawJSON} :
      event = .pool id (.worker index (.fetch order reply)) →
      (state.pools id).phase.workersAlive → name ∈ (deployment.pool id).names →
      state.redis.list (.jobs name) = rest ++ [raw] → state.redis.canRun name →
      next.redis = (state.redis.acquireLock name id).move (.jobs name) (.inProgress id name)
        rest raw →
      Touch deployment state next event
  | finished {id : PoolID} {index : ℕ} {finish : Finish} {reply : Reply} {job : FetchedJob}
      {raw : RawJSON} :
      event = .pool id (.worker index (.finish finish reply)) → reply ≠ .failed →
      (state.pools id).phase.workersAlive →
      (state.pools id).workers[index]? = some (.running job raw) →
      next.redis = Worker.removeJobFromInProgress state.redis id job.inProgQueue
        (Worker.processJob (deployment.pool id) job.toJob finish).1.name
        (Worker.processJob (deployment.pool id) job.toJob finish).2 raw →
      Touch deployment state next event
  | returned {id : PoolID} {order : List String} {reply : Reply} {name : String}
      {raw : RawJSON} {rest : List RawJSON} :
      event = .pool id (.requeueInProgressJobs order reply) →
      (state.pools id).phase = .requeueing → name ∈ (deployment.pool id).names →
      state.redis.list (.inProgress id name) = rest ++ [raw] →
      next.redis = (state.redis.move (.inProgress id name) (.jobs name) rest raw).releaseLock
        name id →
      Touch deployment state next event
  | reaped {reaper id : PoolID} {jobTypes : List String} {todo : List (PoolID × List String)}
      {reply : Reply} {name : String} {raw : RawJSON} {rest : List RawJSON} :
      event = .pool reaper (.reaper (.requeue reply)) →
      (state.pools reaper).reaper = .requeueing id jobTypes todo → name ∈ jobTypes →
      state.redis.list (.inProgress id name) = rest ++ [raw] →
      next.redis = (state.redis.move (.inProgress id name) (.jobs name) rest raw).releaseLock
        name id →
      Touch deployment state next event
  | cleaned {id : PoolID} :
      event = .pool id (.cleanStaleLockInfo true) → (state.pools id).phase = .cleaning →
      next.redis = state.redis.redisLuaReapStaleLocks id (deployment.pool id).names →
      Touch deployment state next event
  | reapCleaned {reaper id : PoolID} {lockJobTypes : List String}
      {todo : List (PoolID × List String)} {reply : Reply} :
      event = .pool reaper (.reaper (.clean reply)) →
      (state.pools reaper).reaper = .cleaning id lockJobTypes todo →
      next.redis = state.redis.redisLuaReapStaleLocks id lockJobTypes →
      Touch deployment state next event

section Cases

variable {id : PoolID} {redis : Store}

private theorem touch_worker {index : ℕ} {workerEvent : Worker.Event}
    {worker worker' : Worker.State} (alive : (state.pools id).phase.workersAlive)
    (present : (state.pools id).workers[index]? = some worker)
    (moved : Worker.Case deployment.ns (deployment.pool id) id state.redis worker workerEvent
      next.redis worker') :
    Touch deployment state next (.pool id (.worker index workerEvent)) := by
  generalize same : next.redis = after at moved
  cases moved with
  | taken member executed split unpaused runnable =>
      exact .taken rfl alive member split runnable same
  | finished executed => exact .finished rfl executed alive present same
  | nothing | got | missed | undeleted | unfinished | stopped => exact .quiet (same ▸ .refl _)
  | deleted | unanswered => exact .quiet (same ▸ .of_eq rfl rfl rfl)

private theorem touch_reaper {reaperEvent : Reaper.Event} {before after : Reaper.State}
    (current : (state.pools id).reaper = before)
    (moved : Reaper.Case (deployment.pool id).names state.redis before reaperEvent next.redis
      after) : Touch deployment state next (.pool id (.reaper reaperEvent)) := by
  generalize same : next.redis = redis at moved
  cases moved with
  | requeued member split later => exact .reaped rfl current member split same
  | cleaned later => exact .reapCleaned rfl current same
  | deleted | removed => exact .quiet (same ▸ .of_eq rfl rfl rfl)
  | listed | expired | alive | old | gone | dead | begun | emptied | aborted =>
      exact .quiet (same ▸ .refl _)

private theorem touch_pool {poolEvent : Pool.Event} {pool : Pool}
    (moved : Pool.Case deployment.ns (deployment.pool id) id state.redis (state.pools id)
      poolEvent next.redis pool) : Touch deployment state next (.pool id poolEvent) := by
  generalize same : next.redis = redis at moved
  cases moved with
  | worked alive stopping present step =>
      subst same
      exact touch_worker alive present step
  | reaped alive step =>
      subst same
      exact touch_reaper rfl step
  | returned phase member executed split => exact .returned rfl phase member split same
  | @cleaned executed phase =>
      cases executed with
      | true => exact .cleaned rfl phase same
      | false => exact .quiet (same ▸ .refl _)
  | requeued alive => exact .quiet (same ▸ (Store.SameButQueues.zremLpush _ _ _ _).sameHoldings)
  | capped | added | beat | removed | forgotten =>
      exact .quiet (same ▸ iteInduction (fun _ => .of_eq rfl rfl rfl) fun _ => .refl _)
  | known => exact .quiet (same ▸ .of_eq rfl rfl rfl)
  | started | launched | stopping | halted | emptied | unreturned | advanced | crashed =>
      exact .quiet (same ▸ .refl _)

private theorem sameHoldings_enqueuer (redis : Store) (call : Enqueuer.Call) :
    redis.SameHoldings (Enqueuer.execute deployment.ns redis call) := by
  cases call with
  | enqueue => exact (Store.SameButQueues.lpush _ _ _).sameHoldings
  | enqueueAt => exact (Store.SameButQueues.zadd _ _ _ _).sameHoldings
  | enqueueUnique name id now args keyMap runAt =>
      have keyed : ∀ key value, redis.SameHoldings (redis.setUnique key value) :=
        fun _ _ => .of_eq rfl rfl rfl
      exact Enqueuer.execute_unique_rec rfl rfl (keyed _ _)
        ((keyed _ _).trans (Store.SameButQueues.lpush _ _ _).sameHoldings)
        (fun _ => .of_eq rfl rfl rfl) runAt
  | addToKnownJobs => exact .of_eq rfl rfl rfl

private theorem sameHoldings_client {call : Client.Call} {after : Store}
    (executed : Client.execute redis call = some after) : redis.SameHoldings after := by
  cases Client.execute_cases executed with
  | deleted => exact (Store.SameButQueues.deleteLoop _ _ _ _ _).sameHoldings
  | freed | cleared => exact .of_eq rfl rfl rfl
  | retried _ _ run => exact (Store.SameButQueues.requeueRun run).sameHoldings

end Cases

/-- Every step touches what pools hold in one of these ways. -/
theorem step_touch (stepped : step deployment state event = some next) :
    Touch deployment state next event := by
  cases event with
  | pool id poolEvent =>
      obtain ⟨pool, _, moved⟩ := step_pool stepped
      exact touch_pool moved
  | enqueuer call =>
      cases stepped
      exact .quiet (sameHoldings_enqueuer _ _)
  | client call =>
      obtain ⟨redis, executed, rfl⟩ := Option.map_eq_some_iff.mp stepped
      exact .quiet (sameHoldings_client executed)
  | pause name paused =>
      cases stepped
      exact .quiet (.of_eq rfl rfl rfl)
  | push name raw =>
      cases stepped
      exact .quiet (Store.SameButQueues.lpush _ _ _).sameHoldings

end System
