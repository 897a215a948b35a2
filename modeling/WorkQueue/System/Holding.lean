import WorkQueue.System.Effect
import WorkQueue.System.Payloads

/-! # Workers' jobs are on their lists

As long as reapers take only crashed pools for dead, nobody but a pool itself empties
its lists of jobs in progress while its workers run: every job that a worker of a live
pool holds is on the list it was fetched to, as often as workers hold it
(`Holding.holders_le`). The other parts of `Holding` are what this rests on.
-/

namespace Worker

/-- The list and the payload that a worker has taken. -/
def State.taken : State → Option (ListKey × RawJSON)
  | .idle | .stopped => none
  | .fetched job => some (job.inProgQueue, job.rawJSON)
  | .gotUnique job _ => some (job.inProgQueue, job.rawJSON)
  | .running job raw => some (job.inProgQueue, raw)

theorem taken_received {raw : RawJSON} {source target : ListKey} {entry : ListKey × RawJSON}
    (taken : (received (some (some (raw, source, target)))).taken = some entry) :
    entry = (target, raw) := by
  rw [received_some] at taken
  cases decoded : newJob raw source target with
  | none =>
      rw [decoded] at taken
      cases taken
  | some job =>
      obtain ⟨same, -, progress, -⟩ := newJob_eq_some decoded
      rw [decoded] at taken
      simp only at taken
      split at taken
      · rw [← Option.some.inj taken, progress, same]
      · rw [← Option.some.inj taken, progress, same]

theorem taken_answer {reply : Reply} {raw : RawJSON} {source target : ListKey}
    {entry : ListKey × RawJSON}
    (taken : (if reply = .ok then received (some (some (raw, source, target)))
      else .idle).taken = some entry) : entry = (target, raw) := by
  split at taken
  · exact taken_received taken
  · cases taken

theorem inProgQueue_updatedJob (job : FetchedJob) (raw : RawJSON) :
    (updatedJob job raw).inProgQueue = job.inProgQueue := by
  unfold updatedJob
  split
  · rfl
  · cases decoded : newJob raw job.dequeuedFrom job.inProgQueue with
    | none => rfl
    | some other => exact (newJob_eq_some decoded).2.2.1

/-- An occurrence of a payload on a list of jobs in progress goes away in a step of a
worker only with the worker that has taken it, and comes with the one that takes it. -/
theorem Case.count_le {ns : String} {config : PoolConfig} {id : PoolID} {redis next : Store}
    {worker worker' : State} {event : Event}
    (stepped : Case ns config id redis worker event next worker') (pool : PoolID) (name : String)
    (raw : RawJSON) :
    (redis.list (.inProgress pool name)).count raw +
        (if worker'.taken = some (.inProgress pool name, raw) then 1 else 0) ≤
      (next.list (.inProgress pool name)).count raw +
        if worker.taken = some (.inProgress pool name, raw) then 1 else 0 := by
  cases stepped with
  | @taken order reply queue pushed rest member executed split =>
      have free : State.idle.taken ≠ some (.inProgress pool name, raw) := by simp [State.taken]
      rw [if_neg free, Nat.add_zero]
      by_cases same : ListKey.inProgress pool name = .inProgress id queue
      · rw [same, Store.list_move_target, Store.list_acquireLock, List.count_cons]
        gcongr
        by_cases taken : (if reply = .ok then
            received (some (some (pushed, .jobs queue, .inProgress id queue)))
            else .idle).taken = some (.inProgress id queue, raw)
        · obtain ⟨-, rfl⟩ := Prod.mk.inj (taken_answer taken)
          rw [if_pos taken, if_pos (beq_self_eq_true raw)]
        · rw [if_neg taken]
          exact Nat.zero_le _
      · rw [Store.list_move_of_ne (by simp) same, Store.list_acquireLock, if_neg ?_]
        · exact Nat.le_refl _
        · intro taken
          exact same (Prod.mk.inj (taken_answer taken)).1
  | @finished job held finish reply executed =>
      rw [list_removeJobFromInProgress, if_neg (by simp [State.taken]), Nat.add_zero]
      by_cases same : ListKey.inProgress pool name = job.inProgQueue
      · rw [same, Store.list_lrem_self, List.count_erase]
        simp only [State.taken, Option.some.injEq, Prod.mk.injEq, true_and, beq_iff_eq]
        omega
      · rw [Store.list_lrem_of_ne same]
        exact Nat.le_add_right _ _
  | deleted =>
      simp only [State.taken, inProgQueue_updatedJob]
      exact Nat.le_refl _
  | nothing | got | missed | unanswered | undeleted | stopped => exact Nat.le_refl _
  | unfinished =>
      rw [State.taken, if_neg (by simp)]
      exact Nat.le_add_right _ _

end Worker

namespace Reaper

/-- The pools that a reaper has taken for dead. -/
def State.targets : State → List PoolID
  | .idle => []
  | .scanning _ found => found.map Prod.fst
  | .reading pool _ found => pool :: found.map Prod.fst
  | .requeueing pool _ todo => pool :: todo.map Prod.fst
  | .deleting pool _ todo => pool :: todo.map Prod.fst
  | .removing pool _ todo => pool :: todo.map Prod.fst
  | .cleaning pool _ todo => pool :: todo.map Prod.fst

theorem targets_proceed (curJobTypes : List String) (todo : List (PoolID × List String)) :
    (proceed curJobTypes todo).targets = todo.map Prod.fst := by
  cases todo with
  | nil => rfl
  | cons first rest =>
      simp only [proceed]
      split
      · rfl
      · rfl

/-- A reaper takes a further pool for dead only when it finds its heartbeat missing or
old. -/
theorem Case.targets_subset {curJobTypes : List String} {redis next : Store}
    {before after : State} {event : Event}
    (stepped : Case curJobTypes redis before event next after) {pool : PoolID}
    (target : pool ∈ after.targets) :
    pool ∈ before.targets ∨ ∃ todo found now, before = .scanning (pool :: todo) found ∧
      event = .heartbeatAt now .ok ∧
      ∀ heartbeat, redis.heartbeat pool = some heartbeat →
        heartbeat.heartbeatAt.toInt + deadTime ≤ now.toInt := by
  cases stepped with
  | listed | aborted => exact (List.not_mem_nil target).elim
  | @expired dead todo found now missing =>
      simp only [State.targets, List.map_append, List.map_cons, List.map_nil, List.mem_append,
        List.mem_singleton] at target
      rcases target with old | rfl
      · exact .inl old
      · refine .inr ⟨todo, found, now, rfl, rfl, ?_⟩
        intro heartbeat present
        rw [missing] at present
        cases present
  | alive | emptied => exact .inl target
  | @old dead todo found now heartbeat present late =>
      simp only [State.targets, List.mem_cons] at target
      rcases target with rfl | old
      · refine .inr ⟨todo, found, now, rfl, rfl, ?_⟩
        intro other same
        rw [present] at same
        rw [← Option.some.inj same]
        exact late
      · exact .inl old
  | gone => exact .inl (List.mem_cons_of_mem _ target)
  | dead present =>
      simp only [State.targets, List.map_append, List.map_cons, List.map_nil, List.mem_append,
        List.mem_singleton] at target
      rcases target with old | rfl
      · exact .inl (List.mem_cons_of_mem _ old)
      · exact .inl List.mem_cons_self
  | begun same =>
      rw [targets_proceed] at target
      exact .inl ((same.map Prod.fst).mem_iff.mp target)
  | requeued member split later | deleted later | removed later =>
      rcases later with rfl | rfl
      · exact .inl target
      · exact (List.not_mem_nil target).elim
  | cleaned later =>
      rcases later with rfl | rfl
      · rw [targets_proceed] at target
        exact .inl (List.mem_cons_of_mem _ target)
      · exact (List.not_mem_nil target).elim

end Reaper

/-- The stages before the workers are launched and after all of them have stopped. -/
def Phase.workersStopped : Phase → Bool
  | .running | .stopping | .crashed => false
  | _ => true

theorem Phase.workersStopped_of_alive {phase : Phase} (alive : phase.workersAlive) :
    phase.workersStopped = false := by
  cases phase with
  | running | stopping => rfl
  | _ => cases alive

namespace Pool

/-- The number of workers that have taken a payload from a list. -/
def holders (pool : Pool) (key : ListKey) (raw : RawJSON) : ℕ :=
  pool.workers.countP fun worker => worker.taken = some (key, raw)

theorem holders_eq_zero {pool : Pool} {key : ListKey} {raw : RawJSON}
    (free : ∀ worker ∈ pool.workers, worker.taken = none) : pool.holders key raw = 0 := by
  rw [holders, List.countP_eq_zero]
  intro worker member
  rw [free worker member]
  simp

/-- Replacing a worker changes a count of workers by the two workers. -/
theorem countP_set_add {workers : List Worker.State} {index : ℕ} {worker : Worker.State}
    (present : workers[index]? = some worker) (worker' : Worker.State)
    (counts : Worker.State → Bool) :
    (workers.set index worker').countP counts + (if counts worker then 1 else 0) =
      workers.countP counts + if counts worker' then 1 else 0 := by
  obtain ⟨bound, rfl⟩ := List.getElem?_eq_some_iff.mp present
  have positive : counts workers[index] → 0 < workers.countP counts := fun counted =>
    List.countP_pos_iff.mpr ⟨_, List.getElem_mem bound, counted⟩
  rw [List.countP_set bound]
  split
  · next counted =>
      have := positive counted
      omega
  · omega

/-- Replacing a worker changes the holders by what the two workers have taken. -/
theorem holders_set {pool : Pool} {index : ℕ} {worker : Worker.State}
    (present : pool.workers[index]? = some worker) (worker' : Worker.State) (key : ListKey)
    (raw : RawJSON) :
    holders { pool with workers := pool.workers.set index worker' } key raw +
        (if worker.taken = some (key, raw) then 1 else 0) =
      pool.holders key raw + if worker'.taken = some (key, raw) then 1 else 0 := by
  have counted := countP_set_add present worker' fun worker => worker.taken = some (key, raw)
  simp only [decide_eq_true_eq] at counted
  exact counted

/-- A crashed pool stays crashed. -/
theorem Case.crashed_of_crashed {ns : String} {config : PoolConfig} {id : PoolID}
    {redis next : Store} {pool pool' : Pool} {event : Event}
    (stepped : Case ns config id redis pool event next pool') (crashed : pool.phase = .crashed) :
    pool'.phase = .crashed := by
  cases stepped with
  | started ready => rcases ready with ready | ready <;> rw [crashed] at ready <;> cases ready
  | capped ready | launched ready | stopping ready | halted ready | returned ready
  | emptied ready | unreturned ready | cleaned ready | removed ready | forgotten ready =>
      rw [crashed] at ready; cases ready
  | known | worked | added | beat | requeued | reaped => exact crashed
  | advanced moved => rw [crashed] at moved; cases moved
  | crashed => rfl

section Workers

variable {ns : String} {config : PoolConfig} {id : PoolID} {redis next : Store}
  {pool pool' : Pool} {event : Event}

/-- A step of a pool that is not one of a worker leaves the workers alone or launches
them. -/
theorem Case.workers_eq (stepped : Case ns config id redis pool event next pool')
    (elsewhere : ∀ index workerEvent, event ≠ .worker index workerEvent) :
    pool'.workers = pool.workers ∨
      pool.phase = .starting [] ∧ ∀ worker ∈ pool'.workers, worker = .idle := by
  cases stepped with
  | worked => exact (elsewhere _ _ rfl).elim
  | launched phase => exact .inr ⟨phase, fun worker member => List.eq_of_mem_replicate member⟩
  | returned =>
      left
      split
      · rfl
      · rfl
  | started | capped | known | added | beat | requeued | reaped | stopping | halted | emptied
  | unreturned | cleaned | removed | forgotten | advanced | crashed => exact .inl rfl

/-- The workers of a pool have stopped before it gets beyond them. -/
theorem Case.workersStopped (stepped : Case ns config id redis pool event next pool')
    (before : pool.phase.workersStopped → ∀ worker ∈ pool.workers, worker = .stopped)
    (after : pool'.phase.workersStopped) : ∀ worker ∈ pool'.workers, worker = .stopped := by
  cases stepped with
  | launched | stopping | crashed => cases after
  | started phase => exact before (by rcases phase with phase | phase <;> rw [phase] <;> rfl)
  | capped phase | emptied phase | unreturned phase | cleaned phase | removed phase
  | forgotten phase => exact before (by rw [phase]; rfl)
  | worked alive =>
      have running := Phase.workersStopped_of_alive alive
      exact (Bool.false_ne_true (running.symm.trans after)).elim
  | halted phase stopped => exact stopped
  | known | added | beat | requeued | reaped => exact before after
  | returned phase =>
      have stopped := before (by rw [phase]; rfl)
      split
      · exact stopped
      · exact stopped
  | advanced moved =>
      refine before ?_
      generalize pool.phase = phase at moved ⊢
      cases phase <;> first | rfl | cases moved

/-- Jobs in progress are requeued in the stage of that name. -/
theorem Case.requeueing {order : List String} {reply : Reply}
    (stepped : Case ns config id redis pool (.requeueInProgressJobs order reply) next pool') :
    pool.phase = .requeueing := by
  cases stepped with
  | returned phase | emptied phase | unreturned phase => exact phase

end Workers

end Pool

/-- Requeueing a job leaves on the lists of jobs in progress what was there before. -/
theorem Store.mem_of_mem_move_progress {redis : Store} {pool other : PoolID} {name queue : String}
    {raw moved : RawJSON} {rest : List RawJSON}
    (split : redis.list (.inProgress other queue) = rest ++ [moved])
    (member : raw ∈ ((redis.move (.inProgress other queue) (.jobs queue) rest moved).releaseLock
      queue other).list (.inProgress pool name)) :
    raw ∈ redis.list (.inProgress pool name) := by
  rw [list_releaseLock] at member
  by_cases same : ListKey.inProgress pool name = .inProgress other queue
  · rw [same, list_move_source (by simp)] at member
    rw [same, split]
    exact List.mem_append_left _ member
  · rw [list_move_of_ne same (by simp)] at member
    exact member

namespace System

variable {deployment : Deployment} {state next : State} {event : Event}

/-- The pool that a reaper takes for dead because it finds its heartbeat missing or
old. -/
def takenForDead? (state : State) : Event → Option PoolID
  | .pool id (.reaper (.heartbeatAt now .ok)) =>
      match (state.pools id).reaper with
      | .scanning (target :: _) _ =>
          match state.redis.heartbeat target with
          | some heartbeat =>
              if heartbeat.heartbeatAt.toInt + deadTime > now.toInt then none else some target
          | none => some target
      | _ => none
  | _ => none

/-- Reapers take only crashed pools for dead. -/
def ReapsCrashed (state : State) (event : Event) : Prop :=
  ∀ target ∈ takenForDead? state event, (state.pools target).phase = .crashed

instance (state : State) (event : Event) : Decidable (ReapsCrashed state event) :=
  inferInstanceAs (Decidable (∀ target ∈ takenForDead? state event, _))

/-- What pools keep in every run: their workers have stopped before they get beyond them,
and nothing is in progress under a name they do not register. -/
structure Regular (deployment : Deployment) (state : State) : Prop where
  stopped : ∀ id, (state.pools id).phase.workersStopped →
    ∀ worker ∈ (state.pools id).workers, worker = .stopped
  registered : ∀ id name, state.redis.list (.inProgress id name) ≠ [] →
    name ∈ (deployment.pool id).names

/-- What pools and reapers keep while reapers take only crashed pools for dead. -/
structure Holding (deployment : Deployment) (state : State) : Prop
    extends Regular deployment state where
  reapers : ∀ id, ∀ target ∈ (state.pools id).reaper.targets,
    (state.pools target).phase = .crashed
  holders_le : ∀ id name raw, (state.pools id).phase ≠ .crashed →
    (state.pools id).holders (.inProgress id name) raw ≤
      (state.redis.list (.inProgress id name)).count raw

/-- A pool is left alone by a step or takes the step itself. -/
theorem step_pool_cases (stepped : step deployment state event = some next) (id : PoolID) :
    ((∀ poolEvent, event ≠ .pool id poolEvent) ∧ next.pools id = state.pools id) ∨
      ∃ poolEvent, event = .pool id poolEvent ∧
        Pool.Case deployment.ns (deployment.pool id) id state.redis (state.pools id) poolEvent
          next.redis (next.pools id) := by
  cases event with
  | pool other poolEvent =>
      obtain ⟨pool, pools, moved⟩ := step_pool stepped
      by_cases same : id = other
      · subst same
        refine .inr ⟨poolEvent, rfl, ?_⟩
        rw [pools, Function.update_self]
        exact moved
      · refine .inl ⟨?_, by rw [pools, Function.update_of_ne same]⟩
        intro own equal
        exact same (Event.pool.inj equal).1.symm
  | enqueuer call | client call | pause name paused | push name raw =>
      exact .inl ⟨by simp, by rw [step_pools stepped (by simp)]⟩

/-- A crashed pool stays crashed. -/
theorem step_crashed (stepped : step deployment state event = some next) {id : PoolID}
    (crashed : (state.pools id).phase = .crashed) : (next.pools id).phase = .crashed := by
  rcases step_pool_cases stepped id with ⟨_, same⟩ | ⟨poolEvent, _, moved⟩
  · rw [same]
    exact crashed
  · exact moved.crashed_of_crashed crashed

/-- A reaper takes a further pool for dead only in a step that says so. -/
theorem step_targets (stepped : step deployment state event = some next) {id target : PoolID}
    (member : target ∈ (next.pools id).reaper.targets) :
    target ∈ (state.pools id).reaper.targets ∨ takenForDead? state event = some target := by
  rcases step_pool_cases stepped id with ⟨_, same⟩ | ⟨poolEvent, rfl, moved⟩
  · exact .inl (same ▸ member)
  · generalize next.pools id = pool at moved member
    generalize next.redis = redis at moved
    cases moved with
    | reaped alive moved =>
        rcases moved.targets_subset member with old | ⟨todo, found, now, before, rfl, late⟩
        · exact .inl old
        · right
          simp only [takenForDead?, before]
          cases beat : state.redis.heartbeat target with
          | none => rfl
          | some heartbeat =>
              have := late heartbeat beat
              simp only [gt_iff_lt, not_lt.mpr this, ↓reduceIte]
    | launched => exact (List.not_mem_nil member).elim
    | returned =>
        left
        split at member
        · exact member
        · exact member
    | worked | started | capped | known | added | beat | requeued | stopping | halted
    | emptied | unreturned | cleaned | removed | forgotten | advanced | crashed => exact .inl member

/-- As long as no reaper targets a pool, only its workers and its own stop change its
lists. -/
theorem step_progress (stepped : step deployment state event = some next)
    (shapes : (PayloadContract.unconditional deployment fun _ _ => True).Everywhere state)
    {id : PoolID} (spared : ∀ reaper, id ∉ (state.pools reaper).reaper.targets)
    (notWorker : ∀ index workerEvent, event ≠ .pool id (.worker index workerEvent))
    (notReturned : ∀ order reply, event ≠ .pool id (.requeueInProgressJobs order reply))
    (name : String) :
    next.redis.list (.inProgress id name) = state.redis.list (.inProgress id name) := by
  cases step_touch stepped with
  | quiet same => exact same.progress id name
  | @taken other index order reply queue raw rest fetch _ _ _ _ after =>
      have different : id ≠ other := by
        rintro rfl
        exact notWorker _ _ fetch
      rw [after, Store.list_move_of_ne (by simp) (by simp [different]), Store.list_acquireLock]
  | @finished other index finish reply job raw completion _ _ running after =>
      have different : id ≠ other := by
        rintro rfl
        exact notWorker _ _ completion
      obtain ⟨queue, _, progress, _⟩ := shapes.workers other _ (List.mem_of_getElem? running)
      rw [after, Worker.list_removeJobFromInProgress, progress,
        Store.list_lrem_of_ne (by simp [different])]
  | @returned other order reply queue raw rest returned _ _ _ after =>
      have different : id ≠ other := by
        rintro rfl
        exact notReturned _ _ returned
      rw [after, Store.list_releaseLock, Store.list_move_of_ne (by simp [different]) (by simp)]
  | @reaped reaper dead jobTypes todo reply queue raw rest _ current _ _ after =>
      have different : id ≠ dead := by
        rintro rfl
        refine spared reaper ?_
        rw [current]
        exact List.mem_cons_self
      rw [after, Store.list_releaseLock, Store.list_move_of_ne (by simp [different]) (by simp)]
  | cleaned _ _ after | reapCleaned _ _ after => rw [after, Store.list_redisLuaReapStaleLocks]

/-- A payload comes onto a list of jobs in progress by a fetch of the pool. -/
theorem step_progress_mem (stepped : step deployment state event = some next) {id : PoolID}
    {name : String} {raw : RawJSON} (member : raw ∈ next.redis.list (.inProgress id name)) :
    raw ∈ state.redis.list (.inProgress id name) ∨ name ∈ (deployment.pool id).names ∧
      (state.pools id).phase.workersAlive ∧
      ∃ index order reply, event = .pool id (.worker index (.fetch order reply)) := by
  cases step_touch stepped with
  | quiet same => exact .inl (same.progress id name ▸ member)
  | @taken other index order reply queue pushed rest fetch alive registered split runnable after =>
      by_cases same : ListKey.inProgress id name = .inProgress other queue
      · obtain ⟨rfl, rfl⟩ := ListKey.inProgress.inj same
        exact .inr ⟨registered, alive, index, order, reply, fetch⟩
      · rw [after, Store.list_move_of_ne (by simp) same] at member
        exact .inl member
  | @finished other index finish reply job held completion executed alive running after =>
      rw [after, Worker.list_removeJobFromInProgress] at member
      by_cases same : ListKey.inProgress id name = job.inProgQueue
      · rw [← same, Store.list_lrem_self] at member
        exact .inl (List.mem_of_mem_erase member)
      · rw [Store.list_lrem_of_ne same] at member
        exact .inl member
  | returned returned phase registered split after | reaped reaped current listed split after =>
      rw [after] at member
      exact .inl (Store.mem_of_mem_move_progress split member)
  | cleaned cleaning phase after | reapCleaned cleaning current after =>
      rw [after, Store.list_redisLuaReapStaleLocks] at member
      exact .inl member

namespace Regular

theorem step (regular : Regular deployment state)
    (stepped : System.step deployment state event = some next) : Regular deployment next where
  stopped id := by
    rcases step_pool_cases stepped id with ⟨_, same⟩ | ⟨poolEvent, _, moved⟩
    · rw [same]
      exact regular.stopped id
    · exact moved.workersStopped (regular.stopped id)
  registered id name nonempty := by
    obtain ⟨raw, member⟩ := List.exists_mem_of_ne_nil _ nonempty
    rcases step_progress_mem stepped member with old | ⟨registered, _⟩
    · exact regular.registered id name (List.ne_nil_of_mem old)
    · exact registered

theorem initial (start : Initial state) : Regular deployment state where
  stopped id _ worker member := by
    rw [start.pools] at member
    exact (List.not_mem_nil member).elim
  registered id name nonempty := (nonempty (start.list _)).elim

theorem reachable {scope : State → Event → Prop}
    (reached : (system deployment).Reachable scope state) : Regular deployment state := by
  refine reached.invariant (Regular deployment) ?_ ?_
  · intro start begun
    exact initial begun
  · intro source event target _ regular _ stepped
    exact regular.step stepped

end Regular

namespace Holding

/-- The workers of a pool still find their jobs on its lists after a step. -/
theorem holders_le_step (holding : Holding deployment state)
    (shapes : (PayloadContract.unconditional deployment fun _ _ => True).Everywhere state)
    (stepped : System.step deployment state event = some next) (id : PoolID) (name : String)
    (raw : RawJSON) (alive : (next.pools id).phase ≠ .crashed) :
    (next.pools id).holders (.inProgress id name) raw ≤
      (next.redis.list (.inProgress id name)).count raw := by
  have aliveBefore : (state.pools id).phase ≠ .crashed := fun crashed =>
    alive (step_crashed stepped crashed)
  have spared : ∀ reaper, id ∉ (state.pools reaper).reaper.targets := fun reaper target =>
    aliveBefore (holding.reapers reaper id target)
  have before := holding.holders_le id name raw aliveBefore
  rcases step_pool_cases stepped id with ⟨others, same⟩ | ⟨poolEvent, rfl, moved⟩
  · rw [same, step_progress stepped shapes spared (fun _ _ => others _) (fun _ _ => others _)]
    exact before
  · by_cases worker : ∃ index workerEvent, poolEvent = .worker index workerEvent
    · obtain ⟨index, workerEvent, rfl⟩ := worker
      generalize next.pools id = pool at moved
      generalize next.redis = redis at moved
      cases moved with
      | @worked _ _ worker worker' _ _ _ present moved =>
          have counted := moved.count_le id name raw
          have replaced := Pool.holders_set present worker' (.inProgress id name) raw
          omega
    · have notWorker : ∀ index workerEvent, poolEvent ≠ .worker index workerEvent :=
        fun index workerEvent same => worker ⟨index, workerEvent, same⟩
      have free : ∀ pool : Pool, (∀ worker ∈ pool.workers, worker = .stopped ∨ worker = .idle) →
          pool.holders (.inProgress id name) raw ≤
            (next.redis.list (.inProgress id name)).count raw := by
        intro pool resting
        rw [Pool.holders_eq_zero]
        · exact Nat.zero_le _
        · intro worker member
          rcases resting worker member with rfl | rfl <;> rfl
      rcases moved.workers_eq notWorker with same | ⟨_, idle⟩
      · by_cases returned : ∃ order reply, poolEvent = .requeueInProgressJobs order reply
        · obtain ⟨order, reply, rfl⟩ := returned
          refine free _ fun worker member => .inl (holding.stopped id ?_ worker (same ▸ member))
          rw [moved.requeueing]
          rfl
        · rw [step_progress stepped shapes spared]
          · unfold Pool.holders at before ⊢
            rw [same]
            exact before
          · intro index workerEvent equal
            exact notWorker _ _ (Event.pool.inj equal).2
          · intro order reply equal
            exact returned ⟨_, _, (Event.pool.inj equal).2⟩
      · exact free _ fun worker member => .inr (idle worker member)

/-- Steps in which reapers take only crashed pools for dead keep `Holding`. -/
theorem step (holding : Holding deployment state)
    (shapes : (PayloadContract.unconditional deployment fun _ _ => True).Everywhere state)
    (crashed : ReapsCrashed state event)
    (stepped : System.step deployment state event = some next) : Holding deployment next where
  toRegular := holding.toRegular.step stepped
  reapers id target member := by
    rcases step_targets stepped member with old | found
    · exact step_crashed stepped (holding.reapers id target old)
    · exact step_crashed stepped (crashed target found)
  holders_le := holding.holders_le_step shapes stepped

theorem initial (start : Initial state) : Holding deployment state where
  toRegular := Regular.initial start
  reapers id target member := by
    rw [start.pools] at member
    exact (List.not_mem_nil member).elim
  holders_le id name raw _ := by
    rw [start.pools]
    exact Nat.zero_le _

/-- What a worker of a pool that has not crashed has taken is on its list. -/
theorem mem_of_taken (holding : Holding deployment state) {id : PoolID} {name : String}
    {raw : RawJSON} {worker : Worker.State} (alive : (state.pools id).phase ≠ .crashed)
    (member : worker ∈ (state.pools id).workers)
    (taken : worker.taken = some (.inProgress id name, raw)) :
    raw ∈ state.redis.list (.inProgress id name) := by
  have held : 0 < (state.pools id).holders (.inProgress id name) raw :=
    List.countP_pos_iff.mpr ⟨worker, member, by simpa using taken⟩
  exact List.count_pos_iff.mp (held.trans_le (holding.holders_le id name raw alive))

/-- `Holding` in every reachable state, if reapers take only crashed pools for dead. -/
theorem reachable {scope : State → Event → Prop}
    (crashed : ∀ state event, scope state event → ReapsCrashed state event)
    (reached : (system deployment).Reachable scope state) : Holding deployment state := by
  refine reached.invariant (Holding deployment) ?_ ?_
  · intro start begun
    exact initial begun
  · intro source event target reachedSource holding allowed stepped
    have shapes := (PayloadContract.unconditional deployment fun _ _ => True).reachable
      (reachedSource.mono fun _ _ _ => trivial)
    exact holding.step shapes (crashed source event allowed) stepped

end Holding

end System
