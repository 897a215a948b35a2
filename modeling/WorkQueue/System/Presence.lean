import WorkQueue.System

/-! # Which steps touch the set of pools and the heartbeats

A pool joins the set of pools and writes its heartbeat in every beat, and removes both
when it stops. A reaper removes them for a pool it has taken for dead. Every other step
leaves them alone (`System.step_presence`).
-/

namespace Store

/-- The set of pools and the heartbeats agree. -/
structure SamePresence (before after : Store) : Prop where
  workerPools : after.workerPools = before.workerPools
  heartbeat : after.heartbeat = before.heartbeat

namespace SamePresence

variable {first second : Store}

theorem refl (store : Store) : store.SamePresence store := ⟨rfl, rfl⟩

theorem of_sameButQueues (same : first.SameButQueues second) : first.SamePresence second := by
  refine ⟨?_, ?_⟩
  · rw [same.frame]
  · rw [same.frame]

end SamePresence

end Store

namespace System

variable {deployment : Deployment} {state next : State} {event : Event}

/-- How a step touches the set of pools and the heartbeats. -/
inductive Presence (deployment : Deployment) (state next : State) (event : Event) : Prop
  | same : state.redis.SamePresence next.redis → Presence deployment state next event
  | joined {id : PoolID} {now : Int64} : event = .pool id (.beatAdd now true) →
      (state.pools id).phase.heartbeaterAlive → next.redis = Pool.saddPool state.redis id →
      Presence deployment state next event
  | beat {id : PoolID} {now startedAt : Int64} : event = .pool id (.beatHash now true) →
      (state.pools id).phase.heartbeaterAlive → (state.pools id).heart = .added startedAt →
      next.redis = Pool.hmsetHeartbeat state.redis id
        ((deployment.pool id).heartbeat startedAt now) →
      Presence deployment state next event
  | left {id : PoolID} : event = .pool id (.removeFromPools true) →
      (state.pools id).phase = .removingFromPools → next.redis = Reaper.sremPool state.redis id →
      Presence deployment state next event
  | forgotten {id : PoolID} : event = .pool id (.removeHeartbeat true) →
      (state.pools id).phase = .removingHeartbeat →
      next.redis = Reaper.delHeartbeat state.redis id → Presence deployment state next event
  | reapDeleted {reaper id : PoolID} {jobTypes : List String}
      {todo : List (PoolID × List String)} {reply : Reply} :
      event = .pool reaper (.reaper (.delete reply)) →
      (state.pools reaper).reaper = .deleting id jobTypes todo →
      next.redis = Reaper.delHeartbeat state.redis id → Presence deployment state next event
  | reapRemoved {reaper id : PoolID} {lockJobTypes : List String}
      {todo : List (PoolID × List String)} {reply : Reply} :
      event = .pool reaper (.reaper (.remove reply)) →
      (state.pools reaper).reaper = .removing id lockJobTypes todo →
      next.redis = Reaper.sremPool state.redis id → Presence deployment state next event

section Cases

variable {id : PoolID} {redis : Store}

private theorem presence_worker {worker worker' : Worker.State} {workerEvent : Worker.Event}
    (moved : Worker.Case deployment.ns (deployment.pool id) id state.redis worker workerEvent redis
      worker') : state.redis.SamePresence redis := by
  cases moved with
  | @finished job raw finish =>
      unfold Worker.removeJobFromInProgress
      cases (Worker.processJob (deployment.pool id) job.toJob finish).2 <;> exact ⟨rfl, rfl⟩
  | _ => exact ⟨rfl, rfl⟩

private theorem presence_reaper {reaperEvent : Reaper.Event} {before after : Reaper.State}
    (current : (state.pools id).reaper = before)
    (moved : Reaper.Case (deployment.pool id).names state.redis before reaperEvent next.redis
      after) : Presence deployment state next (.pool id (.reaper reaperEvent)) := by
  generalize same : next.redis = redis at moved
  cases moved with
  | deleted => exact .reapDeleted rfl current same
  | removed => exact .reapRemoved rfl current same
  | cleaned =>
      exact .same (same ▸ Store.redisLuaReapStaleLocks_rec _ _ (fun _ _ => ⟨rfl, rfl⟩) _)
  | requeued => exact .same (same ▸ ⟨rfl, rfl⟩)
  | _ => exact .same (same ▸ .refl _)

private theorem presence_pool {poolEvent : Pool.Event} {pool : Pool}
    (moved : Pool.Case deployment.ns (deployment.pool id) id state.redis (state.pools id)
      poolEvent next.redis pool) : Presence deployment state next (.pool id poolEvent) := by
  generalize same : next.redis = redis at moved
  cases moved with
  | worked alive stopping present step => exact .same (same ▸ presence_worker step)
  | reaped alive step =>
      subst same
      exact presence_reaper rfl step
  | @added now startedAt executed alive heart =>
      cases executed with
      | true => exact .joined rfl alive same
      | false => exact .same (same ▸ .refl _)
  | @beat now startedAt executed alive heart =>
      cases executed with
      | true => exact .beat rfl alive heart same
      | false => exact .same (same ▸ .refl _)
  | @removed executed phase resting =>
      cases executed with
      | true => exact .left rfl phase same
      | false => exact .same (same ▸ .refl _)
  | @forgotten executed phase =>
      cases executed with
      | true => exact .forgotten rfl phase same
      | false => exact .same (same ▸ .refl _)
  | cleaned =>
      refine .same (same ▸ iteInduction (fun _ => ?_) fun _ => .refl _)
      exact Store.redisLuaReapStaleLocks_rec _ _ (fun _ _ => ⟨rfl, rfl⟩) _
  | requeued alive => exact .same (same ▸ .of_sameButQueues (.zremLpush _ _ _ _))
  | capped => exact .same (same ▸ iteInduction (fun _ => ⟨rfl, rfl⟩) fun _ => .refl _)
  | _ => exact .same (same ▸ ⟨rfl, rfl⟩)

private theorem presence_enqueuer (redis : Store) (call : Enqueuer.Call) :
    redis.SamePresence (Enqueuer.execute deployment.ns redis call) := by
  cases call with
  | enqueueUnique name id now args keyMap runAt =>
      exact Enqueuer.execute_unique_rec rfl rfl ⟨rfl, rfl⟩ ⟨rfl, rfl⟩ (fun _ => ⟨rfl, rfl⟩) runAt
  | _ => exact ⟨rfl, rfl⟩

private theorem presence_client {call : Client.Call} {after : Store}
    (executed : Client.execute redis call = some after) : redis.SamePresence after := by
  cases Client.execute_cases executed with
  | deleted => exact .of_sameButQueues (.deleteLoop _ _ _ _ _)
  | freed | cleared => exact ⟨rfl, rfl⟩
  | retried _ _ run => exact .of_sameButQueues (.requeueRun run)

end Cases

/-- Every step touches the set of pools and the heartbeats in one of these ways. -/
theorem step_presence (stepped : step deployment state event = some next) :
    Presence deployment state next event := by
  cases event with
  | pool id poolEvent =>
      obtain ⟨pool, _, moved⟩ := step_pool stepped
      exact presence_pool moved
  | enqueuer call =>
      cases stepped
      exact .same (presence_enqueuer _ _)
  | client call =>
      obtain ⟨redis, executed, rfl⟩ := Option.map_eq_some_iff.mp stepped
      exact .same (presence_client executed)
  | pause name paused | push name raw =>
      cases stepped
      exact .same ⟨rfl, rfl⟩

end System
