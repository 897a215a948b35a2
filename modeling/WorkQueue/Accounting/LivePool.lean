import WorkQueue.System.Holding
import WorkQueue.Accounting.Concurrency

/-! # A pool holds what its workers run

A fetch takes a payload and a lock before the worker has seen the reply. When every reply
to a fetch arrives, every fetched payload decodes to a job of its queue and every
completion is executed, the lists and the locks of a pool are exactly what its workers
hold (`progress_eq_held`).

Otherwise the worker goes on without the job. The payload stays in progress and its lock
stays taken for as long as the pool lives.
-/

namespace Worker

/-- The job that a worker holds. -/
def State.job? : State → Option FetchedJob
  | .idle | .stopped => none
  | .fetched job | .gotUnique job _ | .running job _ => some job

/-- The value of its unique key that a worker has read. -/
def State.updating? : State → Option (FetchedJob × RawJSON)
  | .gotUnique job raw => some (job, raw)
  | _ => none

/-- The worker learns of what it fetches and can read it, its completion is executed, and
neither an updated job nor a handler changes the name of the job. -/
def Undisturbed (id : PoolID) (redis : Store) (worker : State) : Event → Prop
  | .fetch order reply => reply ≠ .lost ∧ (reply = .ok →
      ∀ answer ∈ (redis.redisLuaFetchJob id order).2,
        ∃ job ∈ newJob answer.1 answer.2.1 answer.2.2, answer.2.1 = .jobs job.name)
  | .delUnique reply => reply = .ok →
      ∀ update ∈ worker.updating?, (updatedJob update.1 update.2).name = update.1.name
  | .finish finish reply => reply ≠ .failed ∧ ∀ job ∈ worker.job?, finish.after.name = job.name
  | .getUnique _ => True
  | .stop => True

instance (id : PoolID) (redis : Store) (worker : State) :
    (event : Event) → Decidable (Undisturbed id redis worker event)
  | .fetch _ _ => inferInstanceAs (Decidable (_ ∧ _))
  | .delUnique _ => inferInstanceAs (Decidable (_ → _))
  | .finish _ _ => inferInstanceAs (Decidable (_ ∧ _))
  | .getUnique _ => .isTrue trivial
  | .stop => .isTrue trivial

theorem processJob_name {config : PoolConfig} {job : Job} {finish : Finish}
    (kept : finish.after.name = job.name) : (processJob config job finish).1.name = job.name := by
  cases registered : config.jobType? job.name with
  | none => simp only [processJob, registered, Job.failed]
  | some jobType =>
      cases outcome : finish.error with
      | none => simp only [processJob, registered, outcome, kept]
      | some message => simp only [processJob, registered, outcome, Job.failed, kept]

/-- A worker that can read what it fetched holds it. -/
theorem received_of_decoded {raw : RawJSON} {source target : ListKey} {job : FetchedJob}
    (decoded : newJob raw source target = some job) :
    (received (some (some (raw, source, target)))).taken = some (target, raw) ∧
      (received (some (some (raw, source, target)))).job? = some job := by
  obtain ⟨same, -, progress, -⟩ := newJob_eq_some decoded
  rw [received_some, decoded]
  dsimp only
  split
  · exact ⟨by rw [State.taken, progress, same], rfl⟩
  · exact ⟨by rw [State.taken, progress, same], rfl⟩

end Worker

/-- The lists and the locks of a pool are what its workers hold. -/
structure Pool.Tidy (id : PoolID) (redis : Store) (pool : Pool) : Prop where
  counted : ∀ name raw, (redis.list (.inProgress id name)).count raw =
    pool.holders (.inProgress id name) raw
  locked : ∀ name, (redis.ledger name).held.amount id =
    (redis.list (.inProgress id name)).length
  named : ∀ worker ∈ pool.workers, ∀ job ∈ worker.job?,
    job.inProgQueue = .inProgress id job.name

namespace Pool.Tidy

variable {ns : String} {config : PoolConfig} {id : PoolID} {redis next : Store} {pool : Pool}
  {index : ℕ} {worker worker' : Worker.State}

/-- A pool whose workers hold nothing has nothing in progress and no locks. -/
theorem nothing_held (tidy : Tidy id redis pool)
    (free : ∀ worker ∈ pool.workers, worker.taken = none) (name : String) :
    redis.list (.inProgress id name) = [] ∧ (redis.ledger name).held.amount id = 0 := by
  have empty : redis.list (.inProgress id name) = [] := by
    refine List.eq_nil_iff_forall_not_mem.mpr ?_
    intro raw member
    have counted := tidy.counted name raw
    rw [Pool.holders_eq_zero free] at counted
    exact List.count_eq_zero.mp counted member
  exact ⟨empty, by rw [tidy.locked, empty]; rfl⟩

/-- Nothing is held and nothing is counted. -/
theorem of_nothing (empty : ∀ name, redis.list (.inProgress id name) = [])
    (unlocked : ∀ name, (redis.ledger name).held.amount id = 0)
    (free : ∀ worker ∈ pool.workers, worker.taken = none ∧ worker.job? = none) :
    Tidy id redis pool where
  counted name raw := by
    rw [empty, Pool.holders_eq_zero fun worker member => (free worker member).1, List.count_nil]
  locked name := by
    rw [unlocked, empty]
    rfl
  named worker member job held := by
    rw [(free worker member).2] at held
    cases held

/-- The workers and what they hold stay the same. -/
theorem congr (tidy : Tidy id redis pool) {pool' : Pool}
    (progress : ∀ name, next.list (.inProgress id name) = redis.list (.inProgress id name))
    (amounts : ∀ name, (next.ledger name).held.amount id = (redis.ledger name).held.amount id)
    (workers : pool'.workers = pool.workers) : Tidy id next pool' where
  counted name raw := by
    rw [progress, tidy.counted, Pool.holders, Pool.holders, workers]
  locked name := by rw [amounts, progress, tidy.locked]
  named := by
    rw [workers]
    exact tidy.named

/-- The names of jobs after a worker has been replaced. -/
theorem named_set (tidy : Tidy id redis pool)
    (own : ∀ job ∈ worker'.job?, job.inProgQueue = .inProgress id job.name) :
    ∀ worker ∈ pool.workers.set index worker', ∀ job ∈ worker.job?,
      job.inProgQueue = .inProgress id job.name := by
  intro worker member
  rcases List.mem_or_eq_of_mem_set member with old | rfl
  · exact tidy.named worker old
  · exact own

/-- A worker that keeps what it has taken, while the store keeps what the pool holds. -/
theorem replace (tidy : Tidy id redis pool) (present : pool.workers[index]? = some worker)
    (same : redis.SameHoldings next) (taken : worker'.taken = worker.taken)
    (own : ∀ job ∈ worker'.job?, job.inProgQueue = .inProgress id job.name) :
    Tidy id next { pool with workers := pool.workers.set index worker' } where
  counted name raw := by
    have replaced := Pool.holders_set present worker' (.inProgress id name) raw
    rw [taken] at replaced
    rw [same.progress, tidy.counted]
    exact (Nat.add_right_cancel replaced).symm
  locked name := by rw [same.ledgers, same.progress, tidy.locked]
  named := tidy.named_set own

/-- A worker that takes a payload with a lock. -/
theorem take (tidy : Tidy id redis pool) (present : pool.workers[index]? = some worker)
    {name : String} {raw : RawJSON} {rest : List RawJSON} (free : worker.taken = none)
    (taken : worker'.taken = some (.inProgress id name, raw))
    (own : ∀ job ∈ worker'.job?, job.inProgQueue = .inProgress id job.name) :
    Tidy id ((redis.acquireLock name id).move (.jobs name) (.inProgress id name) rest raw)
      { pool with workers := pool.workers.set index worker' } where
  counted other payload := by
    have replaced := Pool.holders_set present worker' (.inProgress id other) payload
    have counted := tidy.counted other payload
    simp only [free, taken, reduceCtorEq, ↓reduceIte, Nat.add_zero, Option.some.injEq,
      Prod.mk.injEq, ListKey.inProgress.injEq, true_and] at replaced
    rw [replaced]
    by_cases same : name = other
    · subst same
      simp only [Store.list_move_target, Store.list_acquireLock, List.count_cons, counted,
        beq_iff_eq, true_and]
    · rw [Store.list_move_of_ne (by simp) (by simp [Ne.symm same]), Store.list_acquireLock,
        counted, if_neg fun both => same both.1, Nat.add_zero]
  locked other := by
    have locked := tidy.locked other
    by_cases same : other = name
    · subst same
      rw [Store.list_move_target, Store.list_acquireLock, List.length_cons, Nat.cast_add,
        Nat.cast_one, ← locked]
      exact (congrArg (fun ledger => ledger.held.amount id)
        (redis.ledger_acquireLock other id)).trans (Ledger.amount_acquire_self _ _)
    · rw [Store.list_move_of_ne (by simp) (by simp [same]), Store.list_acquireLock, ← locked]
      exact congrArg (fun ledger => ledger.held.amount id)
        (redis.ledger_acquireLock_of_ne name id same)
  named := tidy.named_set own

/-- A worker that completes its job under the name of its list. -/
theorem finish (tidy : Tidy id redis pool) (present : pool.workers[index]? = some worker)
    {name : String} {raw : RawJSON} (fate : TerminateOp)
    (taken : worker.taken = some (.inProgress id name, raw)) :
    Tidy id (Worker.removeJobFromInProgress redis id (.inProgress id name) name fate raw)
      { pool with workers := pool.workers.set index .idle } where
  counted other payload := by
    have replaced := Pool.holders_set present .idle (.inProgress id other) payload
    have counted := tidy.counted other payload
    have free : Worker.State.idle.taken = none := rfl
    simp only [free, taken, reduceCtorEq, ↓reduceIte, Nat.add_zero,
      Option.some.injEq, Prod.mk.injEq, ListKey.inProgress.injEq, true_and] at replaced
    rw [Worker.list_removeJobFromInProgress]
    by_cases same : name = other
    · subst same
      simp only [Store.list_lrem_self, List.count_erase, beq_iff_eq, true_and] at replaced ⊢
      omega
    · rw [Store.list_lrem_of_ne (by simp [Ne.symm same]), counted, ← replaced,
        if_neg fun both => same both.1, Nat.add_zero]
  locked other := by
    have locked := tidy.locked other
    rw [Worker.list_removeJobFromInProgress, Worker.ledger_removeJobFromInProgress]
    by_cases same : other = name
    · subst same
      have held : raw ∈ redis.list (.inProgress id other) := by
        rw [← List.count_pos_iff, tidy.counted]
        exact List.countP_pos_iff.mpr
          ⟨worker, List.mem_of_getElem? present, by simpa using taken⟩
      rw [Store.ledger_releaseLock, Ledger.amount_release_self, locked, Store.list_lrem_self,
        List.length_erase_of_mem held, Nat.cast_sub (List.length_pos_of_mem held), Nat.cast_one]
    · rw [Store.ledger_releaseLock_of_ne _ _ _ same, Store.list_lrem_of_ne (by simp [same]), locked]
  named := tidy.named_set fun job impossible => nomatch impossible

/-- An undisturbed step of a worker. -/
theorem worker_step (tidy : Tidy id redis pool) (present : pool.workers[index]? = some worker)
    {event : Worker.Event} (undisturbed : Worker.Undisturbed id redis worker event)
    (moved : Worker.Case ns config id redis worker event next worker') :
    Tidy id next { pool with workers := pool.workers.set index worker' } := by
  have own := tidy.named worker (List.mem_of_getElem? present)
  cases moved with
  | @taken order reply name raw rest member executed split unpaused runnable answer =>
      obtain ⟨arrived, readable⟩ := undisturbed
      have ok : reply = .ok := by
        cases reply with
        | ok => rfl
        | lost => exact (arrived rfl).elim
        | failed => exact (executed rfl).elim
      obtain ⟨job, decoded, queue⟩ := readable ok _ answer
      obtain ⟨taken, held⟩ := Worker.received_of_decoded decoded
      obtain ⟨-, -, progress, -⟩ := newJob_eq_some decoded
      rw [if_pos ok]
      refine tidy.take present rfl taken ?_
      intro other same
      obtain rfl := Option.some.inj (held.symm.trans same)
      rw [progress, ListKey.jobs.inj queue]
  | @finished job raw fate reply executed =>
      have progress := own job rfl
      rw [Worker.processJob_name (undisturbed.2 job rfl), progress]
      exact tidy.finish present _ (by rw [Worker.State.taken, progress])
  | unfinished => exact (undisturbed.1 rfl).elim
  | @deleted job raw =>
      refine tidy.replace present (.of_eq rfl rfl rfl) ?_ ?_
      · rw [Worker.State.taken, Worker.State.taken, Worker.inProgQueue_updatedJob]
      · intro updated same
        obtain rfl := Option.some.inj same
        rw [Worker.inProgQueue_updatedJob, undisturbed rfl (job, raw) rfl]
        exact own job rfl
  | unanswered => exact tidy.replace present (.of_eq rfl rfl rfl) rfl own
  | undeleted | nothing | got | missed => exact tidy.replace present (.refl _) rfl own
  | stopped => exact tidy.replace present (.refl _) rfl (fun job impossible => by cases impossible)

end Pool.Tidy

namespace System

variable {deployment : Deployment} {state next : State} {event : Event} {id : PoolID}

/-- The steps of the workers of a pool are undisturbed, and no reaper takes the pool for
dead. -/
def Undisturbed (id : PoolID) (state : State) (event : Event) : Prop :=
  takenForDead? state event ≠ some id ∧
    match event with
    | .pool actor (.worker index workerEvent) => actor = id →
        ∀ worker ∈ (state.pools id).workers[index]?,
          Worker.Undisturbed id state.redis worker workerEvent
    | _ => True

instance (state : State) (event : Event) : Decidable (Undisturbed id state event) := by
  unfold Undisturbed
  split <;> infer_instance

/-- As long as no reaper targets a pool, only its workers and its own stop change the
count of its locks, and the stop clears it. -/
theorem step_amount (stepped : step deployment state event = some next)
    (spared : ∀ reaper, id ∉ (state.pools reaper).reaper.targets)
    (notWorker : ∀ index workerEvent, event ≠ .pool id (.worker index workerEvent))
    (notReturned : ∀ order reply, event ≠ .pool id (.requeueInProgressJobs order reply))
    (name : String) :
    (next.redis.ledger name).held.amount id = (state.redis.ledger name).held.amount id ∨
      (state.pools id).phase = .cleaning ∧ (next.redis.ledger name).held.amount id = 0 := by
  have released : ∀ (redis : Store) (queue : String) {other : PoolID}, id ≠ other →
      ((redis.releaseLock queue other).ledger name).held.amount id =
        (redis.ledger name).held.amount id := by
    intro redis queue other different
    by_cases same : name = queue
    · subst same
      rw [Store.ledger_releaseLock, Ledger.amount_release_of_ne _ different]
    · rw [Store.ledger_releaseLock_of_ne _ _ _ same]
  have forgotten : ∀ {other : PoolID}, id ≠ other → ∀ names,
      ((state.redis.redisLuaReapStaleLocks other names).ledger name).held.amount id =
        (state.redis.ledger name).held.amount id := by
    intro other different names
    rw [Store.ledger_redisLuaReapStaleLocks]
    split
    · rw [FinMap.amount, Ledger.forget_get_of_ne _ different, FinMap.amount]
    · rfl
  cases step_touch stepped with
  | quiet same => exact .inl (by rw [same.ledgers])
  | @taken other index order reply queue raw rest fetch _ _ _ _ after =>
      have different : id ≠ other := by
        rintro rfl
        exact notWorker _ _ fetch
      left
      rw [after]
      change ((state.redis.acquireLock queue other).ledger name).held.amount id = _
      by_cases same : name = queue
      · subst same
        rw [Store.ledger_acquireLock, Ledger.amount_acquire_of_ne _ different]
      · rw [Store.ledger_acquireLock_of_ne _ _ _ same]
  | @finished other index finish reply job raw completion _ _ _ after =>
      have different : id ≠ other := by
        rintro rfl
        exact notWorker _ _ completion
      left
      rw [after, Worker.ledger_removeJobFromInProgress, released _ _ different]
  | @returned other order reply queue raw rest returned _ _ _ after =>
      have different : id ≠ other := by
        rintro rfl
        exact notReturned _ _ returned
      left
      rw [after, released _ _ different]
      rfl
  | @reaped reaper dead jobTypes todo reply queue raw rest _ current _ _ after =>
      have different : id ≠ dead := by
        rintro rfl
        refine spared reaper ?_
        rw [current]
        exact List.mem_cons_self
      left
      rw [after, released _ _ different]
      rfl
  | @cleaned other _ phase after =>
      by_cases same : id = other
      · subst same
        rw [after, Store.ledger_redisLuaReapStaleLocks]
        split
        · exact .inr ⟨phase, by rw [FinMap.amount, Ledger.forget_get_self]; rfl⟩
        · exact .inl rfl
      · exact .inl (by rw [after, forgotten same])
  | @reapCleaned reaper dead lockJobTypes todo reply _ current after =>
      have different : id ≠ dead := by
        rintro rfl
        refine spared reaper ?_
        rw [current]
        exact List.mem_cons_self
      exact .inl (by rw [after, forgotten different])

/-- What an undisturbed pool keeps: no reaper targets it, and it holds what its workers
hold. -/
structure Kept (id : PoolID) (state : State) : Prop where
  spared : ∀ reaper, id ∉ (state.pools reaper).reaper.targets
  tidy : (state.pools id).Tidy id state.redis

namespace Kept

/-- While no worker runs, nothing is in progress and no lock is taken. -/
theorem nothing_of_stopped (kept : Kept id state) (regular : Regular deployment state)
    (stopped : (state.pools id).phase.workersStopped) (name : String) :
    state.redis.list (.inProgress id name) = [] ∧
      (state.redis.ledger name).held.amount id = 0 := by
  refine kept.tidy.nothing_held (fun worker member => ?_) name
  rw [regular.stopped id stopped worker member]
  rfl

/-- A step of the pool other than one of its workers. -/
theorem tidy_pool (kept : Kept id state) (regular : Regular deployment state)
    (shapes : (PayloadContract.unconditional deployment fun _ _ => True).Everywhere state)
    {poolEvent : Pool.Event} (stepped : step deployment state (.pool id poolEvent) = some next)
    (notWorker : ∀ index workerEvent, poolEvent ≠ .worker index workerEvent)
    (moved : Pool.Case deployment.ns (deployment.pool id) id state.redis (state.pools id)
      poolEvent next.redis (next.pools id)) : (next.pools id).Tidy id next.redis := by
  by_cases returned : ∃ order reply, poolEvent = .requeueInProgressJobs order reply
  · -- The lists are empty by now, so that nothing is requeued.
    obtain ⟨order, reply, rfl⟩ := returned
    have empty := kept.nothing_of_stopped regular (by rw [moved.requeueing]; rfl)
    generalize next.pools id = pool at moved ⊢
    generalize next.redis = redis at moved ⊢
    cases moved with
    | @returned _ _ name _ _ _ _ _ split =>
        rw [(empty name).1] at split
        exact (List.append_ne_nil_of_right_ne_nil _ (List.cons_ne_nil _ _) split.symm).elim
    | emptied | unreturned => exact kept.tidy.congr (fun _ => rfl) (fun _ => rfl) rfl
  · have others : ∀ index workerEvent,
        Event.pool id poolEvent ≠ .pool id (.worker index workerEvent) :=
      fun _ _ same => notWorker _ _ (Event.pool.inj same).2
    have elsewhere : ∀ order reply,
        Event.pool id poolEvent ≠ .pool id (.requeueInProgressJobs order reply) :=
      fun _ _ same => returned ⟨_, _, (Event.pool.inj same).2⟩
    have progress := step_progress stepped shapes kept.spared others elsewhere
    have amounts : ∀ name, (next.redis.ledger name).held.amount id =
        (state.redis.ledger name).held.amount id := by
      intro name
      rcases step_amount stepped kept.spared others elsewhere name with same | ⟨phase, zero⟩
      · exact same
      · rw [zero, (kept.nothing_of_stopped regular (by rw [phase]; rfl) name).2]
    rcases moved.workers_eq notWorker with same | ⟨phase, idle⟩
    · exact kept.tidy.congr progress amounts same
    · have nothing := kept.nothing_of_stopped regular (by rw [phase]; rfl)
      refine .of_nothing (fun name => (progress name).trans (nothing name).1)
        (fun name => (amounts name).trans (nothing name).2) ?_
      intro worker member
      rw [idle worker member]
      exact ⟨rfl, rfl⟩

theorem step (kept : Kept id state) (regular : Regular deployment state)
    (shapes : (PayloadContract.unconditional deployment fun _ _ => True).Everywhere state)
    (undisturbed : Undisturbed id state event)
    (stepped : System.step deployment state event = some next) : Kept id next where
  spared reaper member := by
    rcases step_targets stepped member with old | found
    · exact kept.spared reaper old
    · exact undisturbed.1 found
  tidy := by
    rcases step_pool_cases stepped id with ⟨others, same⟩ | ⟨poolEvent, rfl, moved⟩
    · refine kept.tidy.congr ?_ ?_ (by rw [same])
      · exact step_progress stepped shapes kept.spared (fun _ _ => others _) fun _ _ => others _
      · intro name
        rcases step_amount stepped kept.spared (fun _ _ => others _) (fun _ _ => others _) name with
          same | ⟨phase, zero⟩
        · exact same
        · rw [zero, (kept.nothing_of_stopped regular (by rw [phase]; rfl) name).2]
    · by_cases worker : ∃ index workerEvent, poolEvent = .worker index workerEvent
      · obtain ⟨index, workerEvent, rfl⟩ := worker
        generalize next.pools id = pool at moved
        generalize next.redis = redis at moved
        cases moved with
        | worked _ _ present moved =>
            exact kept.tidy.worker_step present (undisturbed.2 rfl _ present) moved
      · exact kept.tidy_pool regular shapes stepped
          (fun index workerEvent same => worker ⟨index, workerEvent, same⟩) moved

theorem reachable (reached : (system deployment).Reachable (Undisturbed id) state) :
    Kept id state := by
  refine reached.invariant (Kept id) ?_ ?_
  · intro start begun
    refine ⟨?_, .of_nothing (fun name => begun.list _) ?_ ?_⟩
    · intro reaper
      rw [begun.pools]
      exact List.not_mem_nil
    · intro name
      simp only [Store.ledger, begun.lockInfo, FinMap.amount, FinMap.get_empty, Option.getD_none]
    · intro worker member
      rw [begun.pools] at member
      exact (List.not_mem_nil member).elim
  · intro source event target reachedSource kept undisturbed stepped
    have shapes := (PayloadContract.unconditional deployment fun _ _ => True).reachable
      (reachedSource.mono fun _ _ _ => trivial)
    exact kept.step (Regular.reachable reachedSource) shapes undisturbed stepped

end Kept

/-- In every run in which a pool is undisturbed and the keys are kept apart, its lists hold each
payload as often as its workers do and its locks count them, so that nothing is left while no
worker is between a fetch and a completion. -/
theorem progress_eq_held (reached : (system deployment).Reachable (fun state event =>
      Undisturbed id state event ∧ PlainKeys deployment state event) state) (name : String) :
    (∀ raw, (state.redis.list (.inProgress id name)).count raw =
        (state.pools id).holders (.inProgress id name) raw) ∧
      (state.redis.lockInfo name).amount id =
        (state.redis.list (.inProgress id name)).length ∧
      ((∀ worker ∈ (state.pools id).workers, worker.taken = none) →
        state.redis.list (.inProgress id name) = [] ∧
          (state.redis.lockInfo name).amount id = 0) := by
  have tidy := (Kept.reachable (reached.mono fun _ _ both => both.1)).tidy
  exact ⟨tidy.counted name, tidy.locked name, fun free => tidy.nothing_held free name⟩

/-- A handler that fails. -/
def failing (id jobName : String) : Finish := { completed id jobName with error := some "failed" }

theorem progress_eq_held_after_failure :
    ∃ state, (system single).Reachable (fun state event =>
        Undisturbed "A" state event ∧ PlainKeys single state event) state ∧
      (state.redis.zset .retry).members ≠ [] ∧ state.redis.list (.inProgress "A" "send") = [] ∧
      (state.redis.lockInfo "send").amount "A" = 0 := by
  have run : ∃ state, (system single).Reachable (fun state event =>
        Undisturbed "A" state event ∧ PlainKeys single state event) state ∧
      (state.redis.zset .retry).members ≠ [] ∧
      ∀ worker ∈ (state.pools "A").workers, worker.taken = none :=
    TransitionSystem.Reachable.exists_of_run
      (fetchedOnce ++ [.pool "A" (.worker 0 (.finish (failing "1" "send") .lost))])
      initial_emptyState (by decide +kernel)
  obtain ⟨state, reached, retried, free⟩ := run
  exact ⟨state, reached, retried, (progress_eq_held reached "send").2.2 free⟩

/-- The reply to a fetch does not arrive. -/
def unanswered : List Event :=
  boot ["send"] "A" ++
    [.enqueuer (.enqueue "send" "1" 0 none), .pool "A" (.worker 0 (.fetch ["send"] .lost))]

/-- A fetched payload is not JSON. -/
def unreadable : List Event :=
  boot ["send"] "A" ++
    [.push "send" (.text "send"), .pool "A" (.worker 0 (.fetch ["send"] .ok))]

/-- The completing transaction fails. -/
def unfinished : List Event :=
  fetchedOnce ++ [.pool "A" (.worker 0 (.finish (completed "1" "send") .failed))]

/-- A payload carries another name than its queue. -/
def misnamed : List Event :=
  boot ["send"] "A" ++
    [.push "send" (.json (Job.serialize { name := "other", id := "1" })),
      .pool "A" (.worker 0 (.fetch ["send"] .ok)),
      .pool "A" (.worker 0 (.finish (completed "1" "other") .ok))]

theorem progress_leaked :
    (∀ events ∈ [unanswered, unreadable, unfinished],
      ∃ state, (system single).Reachable (fun state event =>
          takenForDead? state event ≠ some "A") state ∧
        (state.pools "A").phase = .running ∧
        (∀ worker ∈ (state.pools "A").workers, worker.taken = none) ∧
        state.redis.list (.inProgress "A" "send") ≠ [] ∧
        (state.redis.lockInfo "send").amount "A" = 1 ∧ state.redis.canRun "send" = false) ∧
    ∃ state, (system single).Reachable (fun state event =>
          takenForDead? state event ≠ some "A") state ∧
        (state.pools "A").phase = .running ∧
        (∀ worker ∈ (state.pools "A").workers, worker.taken = none) ∧
        (state.redis.lockInfo "send").amount "A" = 1 ∧ state.redis.canRun "send" = false := by
  refine ⟨?_, TransitionSystem.Reachable.exists_of_run misnamed initial_emptyState (by decide)⟩
  intro events member
  refine TransitionSystem.Reachable.exists_of_run events initial_emptyState ?_
  revert events
  decide

end System
