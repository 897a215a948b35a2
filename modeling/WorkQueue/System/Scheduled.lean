import WorkQueue.System.Supply

/-! # Which steps touch the scheduled jobs

Enqueuers add to the scheduled jobs, and only jobs under the identifier they have generated;
requeuers and clients take from them. Every other step leaves them alone. Hence whatever is
scheduled after a step was scheduled before it with the same score, or has just been written
by an enqueuer (`System.mem_scheduled_step`).
-/

namespace Worker

/-- Workers leave the scheduled jobs alone. -/
theorem Case.zset_scheduled {ns : String} {config : PoolConfig} {id : PoolID} {redis next : Store}
    {worker worker' : State} {event : Event}
    (moved : Case ns config id redis worker event next worker') :
    next.zset .scheduled = redis.zset .scheduled := by
  cases moved with
  | finished => exact zset_scheduled_removeJobFromInProgress ..
  | _ => rfl

end Worker

namespace Store

/-- A requeuer changes no other set of waiting jobs. -/
theorem zset_redisLuaZremLpushCmd_of_ne (redis : Store) {key other : ZSetKey} (names : List String)
    (now : Int64) (different : other ≠ key) (waiting : other ≠ .dead) :
    (redis.redisLuaZremLpushCmd key names now).1.zset other = redis.zset other := by
  have outcome := redis.redisLuaZremLpushCmd_cases key names now
  generalize redis.redisLuaZremLpushCmd key names now = result at outcome ⊢
  cases outcome with
  | nothing | undecodable => rfl
  | requeued => exact zset_zrem_of_ne _ different _
  | buried => exact (zset_zadd_of_ne _ waiting _ _).trans (zset_zrem_of_ne _ different _)
  | _ => exact zset_zrem_of_ne _ different _

/-- A requeuer takes at most the first due job off its set. -/
theorem zset_redisLuaZremLpushCmd_self (redis : Store) {key : ZSetKey} (names : List String)
    (now : Int64) (waiting : key ≠ .dead) :
    (redis.redisLuaZremLpushCmd key names now).1.zset key = redis.zset key ∧
        (redis.redisLuaZremLpushCmd key names now).2 ≠ .ok ∨
      ∃ raw, ((redis.zset key).upTo now.toInt).head? = some raw ∧
        (redis.redisLuaZremLpushCmd key names now).1.zset key = (redis.zset key).erase raw := by
  have outcome := redis.redisLuaZremLpushCmd_cases key names now
  generalize redis.redisLuaZremLpushCmd key names now = result at outcome ⊢
  cases outcome with
  | nothing | undecodable => exact .inl ⟨rfl, by simp⟩
  | requeued due | nameless due | unpushable due | unburiable due =>
      exact .inr ⟨_, due, zset_zrem_self _ _ _⟩
  | buried due =>
      exact .inr ⟨_, due, (zset_zadd_of_ne _ waiting _ _).trans (zset_zrem_self _ _ _)⟩

end Store

namespace Pool

/-- Apart from the requeuer a pool leaves the scheduled jobs alone. -/
theorem Case.zset_scheduled {ns : String} {config : PoolConfig} {id : PoolID} {redis next : Store}
    {pool pool' : Pool} {event : Event} (moved : Case ns config id redis pool event next pool')
    (other : ∀ now, event ≠ .requeue .scheduled now) :
    next.zset .scheduled = redis.zset .scheduled := by
  cases event with
  | worker index workerEvent =>
      cases moved with
      | worked alive stopping present moved => exact moved.zset_scheduled
  | requeue key now =>
      cases moved with
      | requeued alive =>
          refine Store.zset_redisLuaZremLpushCmd_of_ne _ _ _ ?_ (by simp)
          rintro rfl
          exact other now rfl
  | _ => rw [moved.zset_eq (by simp) (by simp)]

end Pool

namespace Enqueuer

/-- The identifier of the job that a call writes. -/
def Call.jobID? : Call → Option String
  | .enqueue _ id _ _ => some id
  | .enqueueAt _ id _ _ _ => some id
  | .enqueueUnique _ id _ _ _ _ => some id
  | .addToKnownJobs _ => none

/-- An enqueuer adds at most the job it writes to the scheduled jobs. -/
theorem mem_scheduled_execute {ns : String} {redis : Store} {call : Call} {entry : Int × RawJSON}
    (member : entry ∈ ((execute ns redis call).zset .scheduled).entries) :
    entry ∈ (redis.zset .scheduled).entries ∨ entry.2.textField "id" = call.jobID? := by
  cases call with
  | enqueue name id now args | addToKnownJobs name => exact .inl member
  | enqueueAt name id now args epochSeconds =>
      rw [execute, Store.zset_zadd_self, SortedSet.mem_entries_add] at member
      rcases member with rfl | ⟨old, -⟩
      · exact .inr (Job.textField_serialize_id _)
      · exact .inl old
  | enqueueUnique name id now args keyMap runAt =>
      have outcome := execute_unique_cases ns redis name id now args keyMap runAt
      generalize execute ns redis (.enqueueUnique name id now args keyMap runAt) = next
        at outcome member
      cases outcome with
      | duplicate | queued => exact .inl member
      | scheduled =>
          rw [Store.zset_zadd_self, SortedSet.mem_entries_add] at member
          rcases member with rfl | ⟨old, -⟩
          · exact .inr (Job.textField_serialize_id _)
          · exact .inl old

end Enqueuer

namespace Store

variable (redis : Store)

/-- The dead jobs that are requeued are taken from no other set. -/
theorem zset_requeueDeadJob_of_ne {key : ZSetKey} (alive : key ≠ .dead) (known : List String)
    (now : Int64) (raw : RawJSON) (job : Json) :
    (redis.requeueDeadJob known now raw job).1.zset key = redis.zset key := by
  have outcome := redis.requeueDeadJob_cases known now raw job
  generalize redis.requeueDeadJob known now raw job = result at outcome ⊢
  cases outcome with
  | kept => exact (zset_zadd_of_ne _ alive _ _).trans (zset_zrem_of_ne _ alive _)
  | _ => exact zset_zrem_of_ne _ alive _

theorem RequeueRun.zset_of_ne {known : List String} {now : Int64} {raws : List RawJSON}
    {redis next : Store} (run : RequeueRun known now raws redis next) {key : ZSetKey}
    (alive : key ≠ .dead) : next.zset key = redis.zset key := by
  induction run with
  | done => rfl
  | skipped _ ih => exact ih
  | @requeued raw raws redis next lua _ _ ih =>
      exact ih.trans (redis.zset_requeueDeadJob_of_ne alive known now raw lua)

/-- A deletion adds nothing to any set. -/
theorem mem_entries_deleteLoop (key other : ZSetKey) (jobID : String) (raws : List RawJSON)
    (deleted : ℕ × Option RawJSON) {entry : Int × RawJSON}
    (member : entry ∈ ((deleteLoop key jobID raws redis deleted).1.zset other).entries) :
    entry ∈ (redis.zset other).entries := by
  revert member
  refine deleteLoop_rec (fun before raw _ kept => ?_) raws deleted id
  by_cases same : other = key
  · subst same
    rw [zset_zrem_self, SortedSet.erase]
    exact kept ∘ List.mem_of_mem_filter
  · rw [zset_zrem_of_ne _ same]
    exact kept

end Store

/-- A client adds nothing to the scheduled jobs. -/
theorem Client.mem_scheduled_execute {redis next : Store} {call : Call}
    (executed : execute redis call = some next) {entry : Int × RawJSON}
    (member : entry ∈ (next.zset .scheduled).entries) :
    entry ∈ (redis.zset .scheduled).entries := by
  have alive : ZSetKey.scheduled ≠ .dead := by decide
  cases execute_cases executed with
  | deleted => exact redis.mem_entries_deleteLoop _ .scheduled _ _ _ member
  | freed => exact member
  | retried _ _ run => rwa [run.zset_of_ne alive] at member
  | cleared =>
      simpa only [Function.update_of_ne alive] using member

namespace System

variable {deployment : Deployment} {state next : State} {event : Event}

/-- What is scheduled after a step was scheduled before it with the same score, or is a job
that an enqueuer has just written. -/
theorem mem_scheduled_step (stepped : step deployment state event = some next)
    {entry : Int × RawJSON} (member : entry ∈ (next.redis.zset .scheduled).entries) :
    entry ∈ (state.redis.zset .scheduled).entries ∨
      ∃ call, event = .enqueuer call ∧ entry.2.textField "id" = call.jobID? := by
  cases event with
  | pool id poolEvent =>
      left
      obtain ⟨pool, -, moved⟩ := step_pool stepped
      by_cases requeues : ∃ now, poolEvent = .requeue .scheduled now
      · obtain ⟨now, rfl⟩ := requeues
        generalize next.redis = redis at moved member
        cases moved with
        | requeued =>
            rcases state.redis.zset_redisLuaZremLpushCmd_self (deployment.pool id).names now
                (show ZSetKey.scheduled ≠ .dead by decide) with ⟨same, -⟩ | ⟨raw, -, taken⟩
            · rwa [same] at member
            · rw [taken, SortedSet.erase] at member
              exact List.mem_of_mem_filter member
      · rwa [moved.zset_scheduled fun now same => requeues ⟨now, same⟩] at member
  | enqueuer call =>
      cases stepped
      rcases Enqueuer.mem_scheduled_execute member with old | written
      · exact .inl old
      · exact .inr ⟨call, rfl, written⟩
  | client call =>
      obtain ⟨redis, executed, rfl⟩ := Option.map_eq_some_iff.mp stepped
      exact .inl (Client.mem_scheduled_execute executed member)
  | pause name paused | push name raw =>
      cases stepped
      exact .inl member

end System
