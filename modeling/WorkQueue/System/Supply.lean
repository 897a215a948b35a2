import WorkQueue.System.Holding

/-! # Which steps touch the waiting jobs and the unique keys

Jobs wait on the queues and on the retry and scheduled sets. Enqueuers and requeuers add
to the queues, workers take from them, and the requeueing of jobs in progress returns to
them. Unique keys are set by enqueuers and deleted by workers and clients. Every other
step leaves all of this alone (`System.step_supply`).
-/

namespace Store

/-- The queues, the waiting sets and the unique keys agree. -/
structure SameWaiting (before after : Store) : Prop where
  queues : ∀ name, after.list (.jobs name) = before.list (.jobs name)
  zset : ∀ key, key ≠ .dead → after.zset key = before.zset key
  unique : after.unique = before.unique

namespace SameWaiting

theorem of_eq {before after : Store} (list : after.list = before.list)
    (zset : after.zset = before.zset) (unique : after.unique = before.unique) :
    before.SameWaiting after :=
  ⟨fun _ => by rw [list], fun _ _ => by rw [zset], unique⟩

theorem refl (store : Store) : store.SameWaiting store := .of_eq rfl rfl rfl

end SameWaiting

end Store

/-- Reapers leave the sorted sets alone. -/
theorem Reaper.Case.zset_eq {names : List String} {redis next : Store} {reaper reaper' : State}
    {event : Event} (moved : Case names redis reaper event next reaper') :
    next.zset = redis.zset := by
  cases moved with
  | cleaned => exact Store.redisLuaReapStaleLocks_rec _ _ (fun _ _ => rfl) _
  | _ => rfl

/-- A pool touches the sorted sets when it completes a job or requeues one. -/
theorem Pool.Case.zset_eq {ns : String} {config : PoolConfig} {id : PoolID} {redis next : Store}
    {pool pool' : Pool} {event : Event} (moved : Case ns config id redis pool event next pool')
    (completes : ∀ index finish reply, event ≠ .worker index (.finish finish reply))
    (requeues : ∀ key now, event ≠ .requeue key now) : next.zset = redis.zset := by
  cases moved with
  | @worked index _ _ _ _ alive stopping present moved =>
      cases moved with
      | finished => exact (completes _ _ _ rfl).elim
      | _ => rfl
  | reaped alive moved => exact moved.zset_eq
  | requeued => exact (requeues _ _ rfl).elim
  | cleaned =>
      split
      · exact Store.redisLuaReapStaleLocks_rec _ _ (fun _ _ => rfl) _
      · rfl
  | capped | added | beat | removed | forgotten => split <;> rfl
  | _ => rfl

/-- The ways a unique call can end: its key is set already, or it sets the key and puts the
job on its queue or among the scheduled jobs. -/
inductive Enqueuer.UniqueCase (redis : Store) (name : String) (job : Job) (value : RawJSON) :
    Option Int64 → Store → Prop
  | duplicate {runAt : Option Int64} : redis.unique job.uniqueKey ≠ none →
      UniqueCase redis name job value runAt (redis.setUnique job.uniqueKey (some value))
  | queued : redis.unique job.uniqueKey = none →
      UniqueCase redis name job value none
        ((redis.setUnique job.uniqueKey (some value)).lpush (.jobs name) (.json job.serialize))
  | scheduled {epochSeconds : Int64} : redis.unique job.uniqueKey = none →
      UniqueCase redis name job value (some epochSeconds)
        ((redis.setUnique job.uniqueKey (some value)).zadd .scheduled epochSeconds.toInt
          (.json job.serialize))

theorem Enqueuer.execute_unique_cases (ns : String) (redis : Store) (name id : String)
    (now : Int64) (args keyMap : Args) (runAt : Option Int64) :
    UniqueCase redis name (uniqueJob ns name id now args keyMap)
      (updatedValue keyMap (uniqueJob ns name id now args keyMap)) runAt
      (execute ns redis (.enqueueUnique name id now args keyMap runAt)) := by
  cases found : redis.unique (uniqueJob ns name id now args keyMap).uniqueKey with
  | none =>
      cases runAt with
      | none =>
          simp only [execute, Store.redisLuaEnqueueUnique, found]
          exact .queued found
      | some epochSeconds =>
          simp only [execute, Store.redisLuaEnqueueUniqueIn, found]
          exact .scheduled found
  | some old =>
      have taken : redis.unique (uniqueJob ns name id now args keyMap).uniqueKey ≠ none := by
        simp [found]
      cases runAt with
      | none | some =>
          simp only [execute, Store.redisLuaEnqueueUnique, Store.redisLuaEnqueueUniqueIn, found]
          exact .duplicate taken

namespace System

variable {deployment : Deployment} {state next : State} {event : Event}

/-- How a step touches the waiting jobs, the unique keys and the workers. -/
inductive Supply (deployment : Deployment) (state next : State) (event : Event) : Prop
  | same : state.redis.SameWaiting next.redis →
      (∀ id index workerEvent, event ≠ .pool id (.worker index workerEvent)) →
      (∀ call, event ≠ .enqueuer call) →
      Supply deployment state next event
  | called {call : Enqueuer.Call} : event = .enqueuer call →
      next.redis = Enqueuer.execute deployment.ns state.redis call →
      Supply deployment state next event
  | requeued {id : PoolID} {key : ZSetKey} {now : Int64} : event = .pool id (.requeue key now) →
      key ≠ .dead →
      next.redis = (state.redis.redisLuaZremLpushCmd key (deployment.pool id).names now).1 →
      Supply deployment state next event
  | returned {id : PoolID} {order : List String} {reply : Reply} {name : String}
      {raw : RawJSON} {rest : List RawJSON} :
      event = .pool id (.requeueInProgressJobs order reply) →
      (state.pools id).phase = .requeueing →
      state.redis.list (.inProgress id name) = rest ++ [raw] → Supply deployment state next event
  | reaped {reaper id : PoolID} {jobTypes : List String} {todo : List (PoolID × List String)}
      {reply : Reply} : event = .pool reaper (.reaper (.requeue reply)) →
      (state.pools reaper).reaper = .requeueing id jobTypes todo →
      Supply deployment state next event
  | worked {id : PoolID} {index : ℕ} {worker worker' : Worker.State}
      {workerEvent : Worker.Event} : event = .pool id (.worker index workerEvent) →
      (state.pools id).workers[index]? = some worker →
      (next.pools id).workers = (state.pools id).workers.set index worker' →
      (∀ other, other ≠ id → next.pools other = state.pools other) →
      Worker.Case deployment.ns (deployment.pool id) id state.redis worker workerEvent
        next.redis worker' →
      Supply deployment state next event
  | client {call : Client.Call} : event = .client call → Supply deployment state next event
  | pushed {name : String} {raw : RawJSON} : event = .push name raw →
      Supply deployment state next event

private theorem supply_reaper {id : PoolID} {reaperEvent : Reaper.Event}
    {before after : Reaper.State} (current : (state.pools id).reaper = before)
    (moved : Reaper.Case (deployment.pool id).names state.redis before reaperEvent next.redis
      after) : Supply deployment state next (.pool id (.reaper reaperEvent)) := by
  generalize same : next.redis = redis at moved
  cases moved with
  | requeued member split later => exact .reaped rfl current
  | cleaned =>
      refine .same (same ▸ ?_) (by simp) (by simp)
      exact Store.redisLuaReapStaleLocks_rec _ _ (fun _ _ => .of_eq rfl rfl rfl) _
  | deleted | removed => exact .same (same ▸ .of_eq rfl rfl rfl) (by simp) (by simp)
  | _ => exact .same (same ▸ .refl _) (by simp) (by simp)

private theorem supply_pool {id : PoolID} {poolEvent : Pool.Event} {pool : Pool}
    (pools : next.pools = Function.update state.pools id pool)
    (moved : Pool.Case deployment.ns (deployment.pool id) id state.redis (state.pools id)
      poolEvent next.redis pool) : Supply deployment state next (.pool id poolEvent) := by
  generalize same : next.redis = redis at moved
  cases moved with
  | worked alive stopping present step =>
      subst same
      refine .worked rfl present (by rw [pools, Function.update_self]) ?_ step
      intro other different
      rw [pools, Function.update_of_ne different]
  | reaped alive step =>
      subst same
      exact supply_reaper rfl step
  | @requeued key now alive =>
      refine .requeued rfl ?_ same
      rintro rfl
      generalize (state.pools id).phase = phase at alive
      cases phase <;> cases alive
  | returned phase member executed split => exact .returned rfl phase split
  | cleaned =>
      refine .same (same ▸ iteInduction (fun _ => ?_) fun _ => .refl _) (by simp) (by simp)
      exact Store.redisLuaReapStaleLocks_rec _ _ (fun _ _ => .of_eq rfl rfl rfl) _
  | capped | added | beat | removed | forgotten =>
      refine .same (same ▸ iteInduction (fun _ => ?_) fun _ => .refl _) (by simp) (by simp)
      exact .of_eq rfl rfl rfl
  | known => exact .same (same ▸ .of_eq rfl rfl rfl) (by simp) (by simp)
  | _ => exact .same (same ▸ .refl _) (by simp) (by simp)

/-- Every step touches the waiting jobs, the unique keys and the workers in one of these
ways. -/
theorem step_supply (stepped : step deployment state event = some next) :
    Supply deployment state next event := by
  cases event with
  | pool id poolEvent =>
      obtain ⟨pool, pools, moved⟩ := step_pool stepped
      exact supply_pool pools moved
  | enqueuer call =>
      cases stepped
      exact .called rfl rfl
  | client call => exact .client rfl
  | pause name paused =>
      cases stepped
      exact .same (.of_eq rfl rfl rfl) (by simp) (by simp)
  | push name raw => exact .pushed rfl

/-- A worker that is there after a step was there before, is a new one, or has taken the
step. -/
theorem step_worker (stepped : step deployment state event = some next) {id : PoolID} {index : ℕ}
    {worker' : Worker.State} (after : (next.pools id).workers[index]? = some worker') :
    (state.pools id).workers[index]? = some worker' ∨ worker' = .idle ∨
      ∃ worker workerEvent, event = .pool id (.worker index workerEvent) ∧
        (state.pools id).workers[index]? = some worker ∧
        Worker.Case deployment.ns (deployment.pool id) id state.redis worker workerEvent
          next.redis worker' := by
  rcases step_pool_cases stepped id with ⟨_, same⟩ | ⟨poolEvent, rfl, moved⟩
  · exact .inl (same ▸ after)
  · by_cases own : ∃ actor workerEvent, poolEvent = .worker actor workerEvent
    · obtain ⟨actor, workerEvent, rfl⟩ := own
      generalize next.pools id = pool at moved after
      generalize next.redis = redis at moved ⊢
      cases moved with
      | worked alive stopping present moved =>
          by_cases same : actor = index
          · subst same
            rw [List.getElem?_set_self (List.getElem?_eq_some_iff.mp present).1] at after
            obtain rfl := Option.some.inj after
            exact .inr (.inr ⟨_, workerEvent, rfl, present, moved⟩)
          · rw [List.getElem?_set_ne same] at after
            exact .inl after
    · rcases moved.workers_eq (fun actor workerEvent same => own ⟨actor, workerEvent, same⟩) with
        same | ⟨_, idle⟩
      · exact .inl (same ▸ after)
      · exact .inr (.inl (idle worker' (List.mem_of_getElem? after)))

/-- A step of a worker, seen from the worker. -/
theorem step_own_worker {id : PoolID} {index : ℕ} {workerEvent : Worker.Event}
    (stepped : step deployment state (.pool id (.worker index workerEvent)) = some next) :
    ∃ worker worker', (state.pools id).workers[index]? = some worker ∧
      (next.pools id).workers[index]? = some worker' ∧
      Worker.Case deployment.ns (deployment.pool id) id state.redis worker workerEvent next.redis
        worker' := by
  obtain ⟨pool, pools, moved⟩ := step_pool stepped
  generalize next.redis = redis at moved ⊢
  cases moved with
  | @worked _ _ worker worker' _ alive stopping present moved =>
      refine ⟨worker, worker', present, ?_, moved⟩
      rw [pools, Function.update_self,
        List.getElem?_set_self (List.getElem?_eq_some_iff.mp present).1]

/-- What holds of idle workers and is kept by every step of a worker within the scope holds
of all workers. -/
theorem workers_invariant {scope : State → Event → Prop} (holds : Worker.State → Prop)
    (idle : holds .idle)
    (kept : ∀ {state : State} {id : PoolID} {index : ℕ} {worker worker' : Worker.State}
      {workerEvent : Worker.Event} {redis : Store},
      scope state (.pool id (.worker index workerEvent)) →
      (state.pools id).workers[index]? = some worker → holds worker →
      Worker.Case deployment.ns (deployment.pool id) id state.redis worker workerEvent redis
        worker' → holds worker')
    (reached : (system deployment).Reachable scope state) (id : PoolID) :
    ∀ worker ∈ (state.pools id).workers, holds worker := by
  refine reached.invariant (fun state => ∀ id, ∀ worker ∈ (state.pools id).workers, holds worker)
    ?_ ?_ id
  · intro start begun id worker member
    rw [begun.pools] at member
    exact (List.not_mem_nil member).elim
  · intro source event target _ before allowed stepped id worker member
    obtain ⟨index, after⟩ := List.mem_iff_getElem?.mp member
    rcases step_worker stepped after with
      same | rfl | ⟨old, workerEvent, rfl, present, moved⟩
    · exact before id worker (List.mem_of_getElem? same)
    · exact idle
    · exact kept allowed present (before id old (List.mem_of_getElem? present)) moved

end System
