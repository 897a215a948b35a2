import WorkQueue.System.Scheduled

/-! # Which steps touch the jobs that wait for another attempt

A worker adds a job whose run has failed, a requeuer takes the first job that is due, and a client
may delete jobs. Every other step leaves the retry set alone (`System.step_retry`). So a job gets
there with the score that its completion has computed (`System.RetryStep.mem_entries`), and leaves
it for another place only when it is due (`System.RetryStep.mem_members`).
-/

/-- A deletion from a set leaves the others alone. -/
theorem Store.zset_deleteLoop_of_ne {key other : ZSetKey} (apart : other ≠ key) (jobID : String)
    (raws : List RawJSON) (redis : Store) (deleted : ℕ × Option RawJSON) :
    (deleteLoop key jobID raws redis deleted).1.zset other = redis.zset other :=
  deleteLoop_rec (fun _ raw _ same => (zset_zrem_of_ne _ apart raw).trans same) raws deleted rfl

/-- An enqueuer leaves the retry set alone. -/
theorem Enqueuer.zset_retry_execute (ns : String) (redis : Store) (call : Call) :
    (execute ns redis call).zset .retry = redis.zset .retry := by
  have apart : ZSetKey.retry ≠ .scheduled := by decide
  cases call with
  | enqueue name id now args | addToKnownJobs name => rfl
  | enqueueAt name id now args epochSeconds => exact Store.zset_zadd_of_ne _ apart _ _
  | enqueueUnique name id now args keyMap runAt =>
      have outcome := execute_unique_cases ns redis name id now args keyMap runAt
      generalize execute ns redis (.enqueueUnique name id now args keyMap runAt) = next at outcome ⊢
      cases outcome with
      | duplicate | queued => rfl
      | scheduled => exact Store.zset_zadd_of_ne _ apart _ _

/-- A client that deletes nothing from the retry set leaves it alone. -/
theorem Client.zset_retry_execute {redis next : Store} {call : Call}
    (executed : execute redis call = some next)
    (keeps : ∀ zscore jobID, call ≠ .deleteZsetJob .retry zscore jobID) :
    next.zset .retry = redis.zset .retry := by
  have alive : ZSetKey.retry ≠ .dead := by decide
  cases execute_cases executed with
  | @deleted key zscore jobID =>
      have apart : ZSetKey.retry ≠ key := by
        intro same
        exact keeps zscore jobID (by rw [same])
      exact Store.zset_deleteLoop_of_ne apart _ _ _ _
  | freed => rfl
  | retried _ _ run => exact run.zset_of_ne alive
  | cleared => exact Function.update_of_ne alive .empty redis.zset

namespace System

variable {deployment : Deployment} {state next : State} {event : Event}

/-- How a step touches the retry set. -/
inductive RetryStep (deployment : Deployment) (state next : State) (event : Event) : Prop
  | same : next.redis.zset .retry = state.redis.zset .retry →
      RetryStep deployment state next event
  | added {id : PoolID} {index : ℕ} {job : FetchedJob} {raw written : RawJSON} {finish : Finish}
      {reply : Reply} {score : Int64} :
      event = .pool id (.worker index (.finish finish reply)) →
      (state.pools id).workers[index]? = some (.running job raw) → reply ≠ .failed →
      (Worker.processJob (deployment.pool id) job.toJob finish).2 = some (.retry, score, written) →
      next.redis.zset .retry = (state.redis.zset .retry).add score.toInt written →
      RetryStep deployment state next event
  | taken {id : PoolID} {now : Int64} {raw : RawJSON} : event = .pool id (.requeue .retry now) →
      ((state.redis.zset .retry).upTo now.toInt).head? = some raw →
      next.redis.zset .retry = (state.redis.zset .retry).erase raw →
      RetryStep deployment state next event
  | deleted {zscore : Int64} {jobID : String} :
      event = .client (.deleteZsetJob .retry zscore jobID) →
      next.redis = (state.redis.redisLuaDeleteSingleCmd .retry zscore jobID).1 →
      RetryStep deployment state next event

/-- What a worker does with the retry set. -/
theorem step_retry_worker {id : PoolID} {index : ℕ} {workerEvent : Worker.Event}
    (stepped : step deployment state (.pool id (.worker index workerEvent)) = some next) :
    RetryStep deployment state next (.pool id (.worker index workerEvent)) := by
  obtain ⟨worker, worker', present, _, moved⟩ := step_own_worker stepped
  generalize same : next.redis = redis at moved
  cases moved with
  | @finished job raw finish reply executed =>
      unfold Worker.removeJobFromInProgress at same
      cases fate : (Worker.processJob (deployment.pool id) job.toJob finish).2 with
      | none =>
          rw [fate] at same
          apply RetryStep.same
          rw [same]
          rfl
      | some added =>
          obtain ⟨key, score, written⟩ := added
          rw [fate] at same
          by_cases own : key = .retry
          · subst own
            apply RetryStep.added rfl present executed fate
            rw [same]
            exact Store.zset_zadd_self _ _ _ _
          · apply RetryStep.same
            rw [same]
            exact Store.zset_zadd_of_ne _ (Ne.symm own) _ _
  | _ => exact .same (congrArg (fun redis => redis.zset .retry) same)

/-- A step adds a failed job to the retry set, takes the first due job off it, deletes jobs there,
or leaves it alone. -/
theorem step_retry (stepped : step deployment state event = some next) :
    RetryStep deployment state next event := by
  cases event with
  | enqueuer call =>
      cases stepped
      exact .same (Enqueuer.zset_retry_execute _ _ _)
  | client call =>
      obtain ⟨redis, executed, rfl⟩ := Option.map_eq_some_iff.mp stepped
      by_cases deletes : ∃ zscore jobID, call = .deleteZsetJob .retry zscore jobID
      · obtain ⟨zscore, jobID, rfl⟩ := deletes
        exact .deleted rfl (Option.some.inj executed).symm
      · apply RetryStep.same
        apply Client.zset_retry_execute executed
        exact fun zscore jobID same => deletes ⟨zscore, jobID, same⟩
  | pause name paused | push name raw =>
      cases stepped
      exact .same rfl
  | pool id poolEvent =>
      by_cases works : ∃ index workerEvent, poolEvent = .worker index workerEvent
      · obtain ⟨index, workerEvent, rfl⟩ := works
        exact step_retry_worker stepped
      · obtain ⟨pool, _, moved⟩ := step_pool stepped
        by_cases requeues : ∃ key now, poolEvent = .requeue key now
        · obtain ⟨key, now, rfl⟩ := requeues
          generalize same : next.redis = redis at moved
          cases moved with
          | requeued =>
              by_cases own : key = .retry
              · subst own
                rcases state.redis.zset_redisLuaZremLpushCmd_self (deployment.pool id).names now
                    (show ZSetKey.retry ≠ .dead by decide) with ⟨kept, _⟩ | ⟨raw, due, taken⟩
                · exact .same (same ▸ kept)
                · exact .taken rfl due (same ▸ taken)
              · apply RetryStep.same
                rw [same]
                exact Store.zset_redisLuaZremLpushCmd_of_ne _ _ _ (Ne.symm own) (by decide)
        · apply RetryStep.same
          rw [moved.zset_eq
            (fun index finish reply same => works ⟨index, .finish finish reply, same⟩)
            fun key now same => requeues ⟨key, now, same⟩]

namespace RetryStep

/-- What is on the retry set after a step was there before with the same score, or has just been
added with the score of its completion. -/
theorem mem_entries (stepped : RetryStep deployment state next event) {entry : Int × RawJSON}
    (member : entry ∈ (next.redis.zset .retry).entries) :
    entry ∈ (state.redis.zset .retry).entries ∨ ∃ id index finish reply job raw score,
      event = .pool id (.worker index (.finish finish reply)) ∧
        (state.pools id).workers[index]? = some (.running job raw) ∧ reply ≠ .failed ∧
        (Worker.processJob (deployment.pool id) job.toJob finish).2 =
          some (.retry, score, entry.2) ∧ entry.1 = score.toInt := by
  cases stepped with
  | same kept =>
      rw [kept] at member
      exact .inl member
  | added event running executed fate after =>
      rw [after, SortedSet.mem_entries_add] at member
      obtain rfl | ⟨old, _⟩ := member
      · exact .inr ⟨_, _, _, _, _, _, _, event, running, executed, fate, rfl⟩
      · exact .inl old
  | taken _ _ after =>
      rw [after, SortedSet.erase] at member
      exact .inl (List.mem_of_mem_filter member)
  | deleted _ after =>
      rw [after] at member
      exact .inl (state.redis.mem_entries_deleteLoop _ _ _ _ _ member)

/-- A job leaves the retry set when it is the first due one, or when jobs there are deleted. -/
theorem mem_members (stepped : RetryStep deployment state next event) {raw : RawJSON}
    (member : raw ∈ (state.redis.zset .retry).members) :
    raw ∈ (next.redis.zset .retry).members ∨
      (∃ id now, event = .pool id (.requeue .retry now) ∧
        ((state.redis.zset .retry).upTo now.toInt).head? = some raw) ∨
      ∃ zscore jobID, event = .client (.deleteZsetJob .retry zscore jobID) ∧
        next.redis = (state.redis.redisLuaDeleteSingleCmd .retry zscore jobID).1 := by
  cases stepped with
  | same kept =>
      rw [kept]
      exact .inl member
  | added _ _ _ _ after =>
      rw [after, SortedSet.mem_add]
      exact .inl (.inr member)
  | @taken id now other event due after =>
      by_cases same : raw = other
      · exact .inr (.inl ⟨id, now, event, same ▸ due⟩)
      · rw [after, SortedSet.mem_erase]
        exact .inl ⟨same, member⟩
  | deleted event after => exact .inr (.inr ⟨_, _, event, after⟩)

end RetryStep

end System
