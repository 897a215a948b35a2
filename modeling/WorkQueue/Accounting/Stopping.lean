import WorkQueue.Accounting.Concurrency

/-! # Stopping clears the locks

When a pool has stopped it has returned its jobs in progress and removed its entry from
the ledgers of its job names. A log of the run remembers which pools have fetched a job
of a name and whose stop had a failing command (`Log`). Once all pools that ever fetched a
job of the name have stopped, no entry is left, and the lock is zero if the ledger is
balanced (`lock_cleared`).

The ledgers stay balanced until the clean-up of a lock would make it negative and sets it
to zero instead. Completing a job after it was reaped makes that possible, and the next
pool to stop then leaves a lock behind that nobody holds.
-/

namespace Worker

/-- A worker has taken a payload before a step, or takes it from the queue by a fetch. -/
theorem Case.taken_cases {ns : String} {config : PoolConfig} {id : PoolID} {redis next : Store}
    {worker worker' : State} {event : Event} {entry : ListKey × RawJSON}
    (stepped : Case ns config id redis worker event next worker')
    (taken : worker'.taken = some entry) :
    worker.taken = some entry ∨ (∃ order reply, event = .fetch order reply) ∧
      ∃ queue, entry.1 = .inProgress id queue ∧
        next.list entry.1 = entry.2 :: redis.list entry.1 := by
  cases stepped with
  | @taken order reply queue raw rest member executed split =>
      obtain rfl := taken_answer taken
      exact .inr ⟨⟨order, reply, rfl⟩, queue, rfl, by rw [Store.list_move_target]; rfl⟩
  | deleted =>
      simp only [State.taken, inProgQueue_updatedJob] at taken
      exact .inl taken
  | nothing | finished | unfinished | stopped => cases taken
  | _ => exact .inl taken

end Worker

theorem Phase.workersStopped_of_retired {phase : Phase} (retired : phase.retired) :
    phase.workersStopped := by
  cases phase with
  | unstarted | starting remaining | running | stopping | requeueing | crashed => cases retired
  | _ => rfl

/-- A pool gets beyond the clean-up of its locks by that clean-up. -/
theorem Pool.Case.retired_cases {ns : String} {config : PoolConfig} {id : PoolID}
    {redis next : Store} {pool pool' : Pool} {event : Pool.Event}
    (stepped : Pool.Case ns config id redis pool event next pool') (retired : pool'.phase.retired)
    (past : pool'.phase ≠ .cleaning) :
    (event ≠ .stop ∧ pool.phase.retired ∧ pool.phase ≠ .cleaning) ∨
      ∃ executed, event = .cleanStaleLockInfo executed ∧ pool.phase = .cleaning := by
  cases stepped with
  | started | capped | launched | stopping | halted | crashed => cases retired
  | returned phase =>
      split at retired
      · rw [phase] at retired
        cases retired
      · next lost =>
          rw [if_neg lost] at past
          exact (past rfl).elim
  | emptied | unreturned => exact (past rfl).elim
  | @cleaned executed phase => exact .inr ⟨executed, rfl, phase⟩
  | removed phase | forgotten phase => exact .inl ⟨by simp, by rw [phase]; rfl, by rw [phase]; simp⟩
  | advanced moved => exact .inl ⟨by simp, Phase.retired_of_advance moved⟩
  | _ => exact .inl ⟨by simp, retired, past⟩

namespace System

variable {deployment : Deployment} {state next : State} {event : Event} {id : PoolID}
  {name : String}

/-- A pool holds nothing of a job name: no entry in the ledger, no job in progress and
none at its workers. -/
structure Uninvolved (state : State) (id : PoolID) (name : String) : Prop where
  entry : (state.redis.lockInfo name).get id = none
  progress : state.redis.list (.inProgress id name) = []
  workers : ∀ worker ∈ (state.pools id).workers, ∀ raw,
    worker.taken ≠ some (.inProgress id name, raw)

/-- The pool takes a job of a name in a step. -/
def Fetches (state : State) (event : Event) (next : State) (id : PoolID) (name : String) : Prop :=
  event.fetcher? = some id ∧
    next.redis.list (.inProgress id name) ≠ state.redis.list (.inProgress id name)

instance : Decidable (Fetches state event next id name) := inferInstanceAs (Decidable (_ ∧ _))

theorem Fetches.of_step (stepped : step deployment state event = some next)
    (fetches : Fetches state event next id name) :
    name ∈ (deployment.pool id).names ∧ (state.pools id).phase.workersAlive := by
  obtain ⟨fetcher, changed⟩ := fetches
  cases step_touch stepped with
  | quiet same => exact (changed (same.progress id name)).elim
  | @taken other index order reply queue raw rest fetch alive registered split runnable after =>
      rw [fetch] at fetcher
      obtain rfl := Option.some.inj fetcher
      have same : name = queue := by
        by_contra different
        refine changed ?_
        rw [after, Store.list_move_of_ne (by simp) (by simp [different]), Store.list_acquireLock]
      exact ⟨same ▸ registered, alive⟩
  | finished completion =>
      rw [completion] at fetcher
      cases fetcher
  | returned returned =>
      rw [returned] at fetcher
      cases fetcher
  | reaped reaped =>
      rw [reaped] at fetcher
      cases fetcher
  | cleaned cleaning | reapCleaned cleaning =>
      rw [cleaning] at fetcher
      cases fetcher

namespace Uninvolved

theorem entry_step (uninvolved : Uninvolved state id name)
    (named : (namesContract deployment).Everywhere state) (own : OwnPayloads state event)
    (unfetched : ¬ Fetches state event next id name)
    (stepped : step deployment state event = some next) :
    (next.redis.lockInfo name).get id = none := by
  have returned : ∀ {pool queue rest raw}, state.redis.list (.inProgress pool queue) =
      rest ++ [raw] → (((state.redis.move (.inProgress pool queue) (.jobs queue) rest
        raw).releaseLock queue pool).lockInfo name).get id = none := by
    intro pool queue rest raw split
    rw [Store.get_releaseLock_of_ne]
    · exact uninvolved.entry
    · rintro ⟨rfl, rfl⟩
      rw [uninvolved.progress] at split
      simp at split
  have cleaned : ∀ pool names,
      ((state.redis.redisLuaReapStaleLocks pool names).lockInfo name).get id = none := by
    intro pool names
    rw [Store.get_redisLuaReapStaleLocks]
    split
    · rfl
    · exact uninvolved.entry
  cases step_touch stepped with
  | quiet same =>
      have ledgers := same.ledgers name
      change (next.redis.ledger name).held.get id = none
      rw [ledgers]
      exact uninvolved.entry
  | @taken other index order reply queue raw rest fetch _ _ _ _ after =>
      have different : ¬ (id = other ∧ name = queue) := by
        rintro ⟨rfl, rfl⟩
        refine unfetched ⟨by rw [fetch]; rfl, ?_⟩
        rw [after, Store.list_move_target, Store.list_acquireLock]
        exact List.cons_ne_self _ _
      rw [after]
      exact (Store.get_acquireLock_of_ne different).trans uninvolved.entry
  | @finished other index finish reply job raw completion _ _ running after =>
      subst completion
      have member := List.mem_of_getElem? running
      obtain ⟨queue, _, progress, jobName, _⟩ := named.workers other _ member
      have kept := own.2 _ rfl job (runningJob?_of_running running)
      have different : ¬ (id = other ∧ name = queue) := by
        rintro ⟨rfl, rfl⟩
        exact uninvolved.workers _ member raw (by rw [Worker.State.taken, progress])
      rw [after, (Worker.processJob_identity kept).1, jobName]
      change ((Worker.removeJobFromInProgress state.redis other job.inProgQueue queue _
        raw).ledger name).held.get id = none
      rw [Worker.ledger_removeJobFromInProgress]
      exact (Store.get_releaseLock_of_ne different).trans uninvolved.entry
  | returned _ _ _ split after | reaped _ _ _ split after =>
      rw [after]
      exact returned split
  | cleaned _ _ after | reapCleaned _ _ after =>
      rw [after]
      exact cleaned _ _

/-- A pool that holds nothing of a name gets involved only by a fetch. -/
theorem step (uninvolved : Uninvolved state id name)
    (named : (namesContract deployment).Everywhere state) (own : OwnPayloads state event)
    (unfetched : ¬ Fetches state event next id name)
    (stepped : System.step deployment state event = some next) : Uninvolved next id name where
  entry := uninvolved.entry_step named own unfetched stepped
  progress := by
    refine List.eq_nil_iff_forall_not_mem.mpr ?_
    intro raw member
    rcases step_progress_mem stepped member with old | ⟨_, _, index, order, reply, rfl⟩
    · rw [uninvolved.progress] at old
      exact List.not_mem_nil old
    · refine unfetched ⟨rfl, ?_⟩
      rw [uninvolved.progress]
      exact List.ne_nil_of_mem member
  workers worker member raw taken := by
    rcases step_pool_cases stepped id with ⟨_, same⟩ | ⟨poolEvent, rfl, moved⟩
    · exact uninvolved.workers worker (same ▸ member) raw taken
    · by_cases working : ∃ index workerEvent, poolEvent = .worker index workerEvent
      · obtain ⟨index, workerEvent, rfl⟩ := working
        generalize next.pools id = pool at moved member
        generalize same : next.redis = redis at moved
        cases moved with
        | worked alive stopping present moved =>
            rcases List.mem_or_eq_of_mem_set member with old | rfl
            · exact uninvolved.workers worker old raw taken
            · rcases moved.taken_cases taken with held | ⟨⟨order, reply, rfl⟩, _, _, longer⟩
              · exact uninvolved.workers _ (List.mem_of_getElem? present) raw held
              · refine unfetched ⟨rfl, ?_⟩
                rw [same, longer]
                exact List.cons_ne_self _ _
      · rcases moved.workers_eq fun index workerEvent same =>
          working ⟨index, workerEvent, same⟩ with same | ⟨_, idle⟩
        · exact uninvolved.workers worker (same ▸ member) raw taken
        · rw [idle worker member] at taken
          cases taken

end Uninvolved

/-- The pool whose stop has a failing command. -/
def Event.failedStop? : Event → Option PoolID
  | .pool id (.requeueInProgressJobs _ reply) => if reply = .ok then none else some id
  | .pool id (.cleanStaleLockInfo false) => some id
  | .pool id (.removeFromPools false) => some id
  | .pool id (.removeHeartbeat false) => some id
  | _ => none

/-- What is remembered of a run: the pools that have fetched a job of a name, and those
whose last stop had a failing command. -/
structure Log where
  fetched : Finset PoolID
  flawed : Finset PoolID

namespace Log

/-- The log before the run. -/
def start : Log := ⟨∅, ∅⟩

/-- The log after a step. -/
def observe (name : String) (log : Log) (state : State) (event : Event) (next : State) : Log where
  fetched := log.fetched ∪
    event.fetcher?.toFinset.filter fun id => Fetches state event next id name
  flawed := (log.flawed.filter fun id => event ≠ .pool id .stop) ∪ event.failedStop?.toFinset

variable {log : Log}

theorem notMem_fetched (absent : id ∉ (log.observe name state event next).fetched) :
    id ∉ log.fetched ∧ ¬ Fetches state event next id name := by
  simp only [observe, Finset.mem_union, Finset.mem_filter, Option.mem_toFinset, Option.mem_def,
    not_or, not_and] at absent
  exact ⟨absent.1, fun fetches => absent.2 fetches.1 fetches⟩

theorem mem_fetched (present : id ∈ (log.observe name state event next).fetched) :
    id ∈ log.fetched ∨ Fetches state event next id name := by
  simp only [observe, Finset.mem_union, Finset.mem_filter] at present
  exact present.imp_right And.right

theorem notMem_flawed (absent : id ∉ (log.observe name state event next).flawed) :
    (event ≠ .pool id .stop → id ∉ log.flawed) ∧ event.failedStop? ≠ some id := by
  simp only [observe, Finset.mem_union, Finset.mem_filter, Option.mem_toFinset, Option.mem_def,
    not_or, not_and] at absent
  exact ⟨fun other member => absent.1 member other, absent.2⟩

end Log

/-- The clean-ups of a lock do not make it negative: a pool never takes out more than the
lock has. -/
def Unclamped (deployment : Deployment) (state : State) (event : Event) : Prop :=
  ∀ cleaned ∈ cleanedPool? deployment state event, ∀ name ∈ cleaned.2,
    (state.redis.lockInfo name).amount cleaned.1 ≤ (state.redis.lock name).getD 0

instance (state : State) (event : Event) : Decidable (Unclamped deployment state event) :=
  inferInstanceAs (Decidable (∀ cleaned ∈ cleanedPool? deployment state event, _))

/-- Steps that do not hit zero keep the ledgers balanced. -/
theorem balanced_step (balanced : (state.redis.ledger name).Balanced)
    (unclamped : Unclamped deployment state event)
    (stepped : step deployment state event = some next) :
    (next.redis.ledger name).Balanced := by
  rcases step_ledger stepped name with same | ⟨id, _, _, acquired⟩ | ⟨id, released⟩ |
      ⟨pool, names, cleaned, member, forgotten⟩
  · rw [same]
    exact balanced
  · rw [acquired]
    exact balanced.acquire id
  · rw [released]
    exact balanced.release id
  · rw [forgotten]
    exact balanced.forget pool (unclamped _ cleaned name member)

/-- What is known of the ledger of a name in a run with its log. -/
structure Cleared (deployment : Deployment) (name : String) (pair : State × Log) : Prop where
  balanced : (pair.1.redis.ledger name).Balanced
  registered : ∀ id ∈ pair.2.fetched, name ∈ (deployment.pool id).names
  uninvolved : ∀ id ∉ pair.2.fetched, Uninvolved pair.1 id name
  quiet : ∀ id ∉ pair.2.flawed, (pair.1.pools id).phase.retired → pair.1.redis.Quiet id
  cleared : ∀ id ∉ pair.2.flawed, (pair.1.pools id).phase.retired →
    (pair.1.pools id).phase ≠ .cleaning → Uninvolved pair.1 id name

namespace Cleared

variable {log : Log}

theorem quiet_step (holds : Cleared deployment name (state, log))
    (regular : Regular deployment state) (stepped : System.step deployment state event = some next)
    (flawless : id ∉ (log.observe name state event next).flawed)
    (retired : (next.pools id).phase.retired) : next.redis.Quiet id := by
  obtain ⟨unflawed, unfailed⟩ := Log.notMem_flawed flawless
  rcases step_pool_cases stepped id with ⟨others, same⟩ | ⟨poolEvent, rfl, moved⟩
  · rw [same] at retired
    refine System.quiet_step stepped (holds.quiet id (unflawed (others _)) retired) ?_
    by_contra alive
    rw [Phase.retired_of_alive (Bool.eq_true_of_not_eq_false alive)] at retired
    cases retired
  · have going : poolEvent ≠ .stop := by
      rintro rfl
      generalize next.pools id = pool at moved retired
      generalize next.redis = redis at moved
      cases moved
      cases retired
    have answered : ∀ reply ∈ (Event.pool id poolEvent).requeueReply?, reply = .ok := by
      intro reply member
      by_contra failed
      cases poolEvent with
      | requeueInProgressJobs order answer =>
          obtain rfl := Option.some.inj member
          exact unfailed (by simp only [Event.failedStop?, failed, ↓reduceIte])
      | _ => cases member
    obtain ⟨quiet, halted⟩ := retired_move regular
      (holds.quiet id (unflawed fun same => going (Event.pool.inj same).2)) answered moved retired
    exact System.quiet_step stepped quiet halted

theorem cleared_step (holds : Cleared deployment name (state, log))
    (named : (namesContract deployment).Everywhere state) (regular : Regular deployment state)
    (own : OwnPayloads state event) (stepped : System.step deployment state event = some next)
    (flawless : id ∉ (log.observe name state event next).flawed)
    (retired : (next.pools id).phase.retired) (past : (next.pools id).phase ≠ .cleaning) :
    Uninvolved next id name := by
  obtain ⟨unflawed, unfailed⟩ := Log.notMem_flawed flawless
  have stays : event ≠ .pool id .stop → (state.pools id).phase.retired →
      (state.pools id).phase ≠ .cleaning → Uninvolved next id name := by
    intro going already beyond
    refine (holds.cleared id (unflawed going) already beyond).step named own ?_ stepped
    intro fetches
    rw [Phase.retired_of_alive (fetches.of_step stepped).2] at already
    cases already
  rcases step_pool_cases stepped id with ⟨others, same⟩ | ⟨poolEvent, rfl, moved⟩
  · rw [same] at retired past
    exact stays (others _) retired past
  · rcases moved.retired_cases retired past with ⟨going, already, beyond⟩ | ⟨executed, rfl, phase⟩
    · exact stays (fun same => going (Event.pool.inj same).2) already beyond
    · have quiet := holds.quiet_step regular stepped flawless retired
      have unfetched : ¬ Fetches state (.pool id (.cleanStaleLockInfo executed)) next id name := by
        rintro ⟨impossible, _⟩
        cases impossible
      by_cases fetched : id ∈ log.fetched
      · refine ⟨?_, quiet name, ?_⟩
        · generalize next.pools id = pool at moved
          generalize next.redis = redis at moved
          cases moved with
          | cleaned =>
              cases executed with
              | false => exact (unfailed rfl).elim
              | true =>
                  simp only [↓reduceIte]
                  rw [Store.get_redisLuaReapStaleLocks,
                    if_pos ⟨rfl, holds.registered id fetched⟩]
        · intro worker member raw taken
          have stopped := moved.workersStopped (regular.stopped id)
            (Phase.workersStopped_of_retired retired) worker member
          rw [stopped] at taken
          cases taken
      · exact (holds.uninvolved id fetched).step named own unfetched stepped

theorem step (holds : Cleared deployment name (state, log))
    (named : (namesContract deployment).Everywhere state) (regular : Regular deployment state)
    (own : OwnPayloads state event) (unclamped : Unclamped deployment state event)
    (stepped : System.step deployment state event = some next) :
    Cleared deployment name (next, log.observe name state event next) where
  balanced := balanced_step holds.balanced unclamped stepped
  registered id member := by
    rcases Log.mem_fetched member with old | fetches
    · exact holds.registered id old
    · exact (fetches.of_step stepped).1
  uninvolved id absent := by
    obtain ⟨never, unfetched⟩ := Log.notMem_fetched absent
    exact (holds.uninvolved id never).step named own unfetched stepped
  quiet id := holds.quiet_step regular stepped
  cleared id flawless := holds.cleared_step named regular own stepped flawless

theorem initial (begun : Initial state) : Cleared deployment name (state, Log.start) where
  balanced := by
    simp only [Ledger.Balanced, Store.ledger, begun.lock, begun.lockInfo, Option.getD_none,
      FinMap.total_empty]
  registered id member := (Finset.notMem_empty id member).elim
  uninvolved id _ := by
    refine ⟨by rw [begun.lockInfo, FinMap.get_empty], begun.list _, ?_⟩
    intro worker member
    rw [begun.pools] at member
    exact (List.not_mem_nil member).elim
  quiet id _ _ _ := begun.list _
  cleared id _ retired := by
    rw [begun.pools] at retired
    cases retired

end Cleared

/-- The system with the log of a job name. -/
def logged (deployment : Deployment) (name : String) : TransitionSystem (State × Log) Event :=
  (system deployment).monitored Log.start (Log.observe name)

/-- All pools that have ever fetched a job of the name have stopped, with all the commands
of their stop succeeding. -/
def AllStopped (pair : State × Log) : Prop :=
  ∀ id ∈ pair.2.fetched, (pair.1.pools id).phase = .stopped ∧ id ∉ pair.2.flawed

instance (pair : State × Log) : Decidable (AllStopped pair) :=
  inferInstanceAs (Decidable (∀ id ∈ pair.2.fetched, _))

/-- In runs in which no clean-up hits zero and the keys are kept apart, stopping all pools that
ever fetched a job of a name clears its lock, and the cap does not hold back the next fetch. -/
theorem lock_cleared {pair : State × Log}
    (reached : (logged deployment name).Reachable (fun pair event =>
      OwnPayloads pair.1 event ∧ Unclamped deployment pair.1 event ∧
        PlainKeys deployment pair.1 event) pair)
    (stopped : AllStopped pair) :
    (pair.1.redis.lock name).getD 0 = 0 ∧ (∀ pool, (pair.1.redis.lockInfo name).get pool = none) ∧
      pair.1.redis.canRun name := by
  have holds : Cleared deployment name pair := by
    refine reached.monitored_invariant (fun state log => Cleared deployment name (state, log)) ?_ ?_
    · intro start begun
      exact Cleared.initial begun
    · rintro source log event target reachedSource holds ⟨own, unclamped, -⟩ stepped
      have reachedState : (system deployment).Reachable OwnPayloads source :=
        TransitionSystem.Reachable.of_monitored (reachedSource.mono fun _ _ both => both.1)
      exact holds.step ((namesContract deployment).reachable reachedState)
        (Regular.reachable reachedState) own unclamped stepped
  have unbound : ∀ pool, (pair.1.redis.lockInfo name).get pool = none := by
    intro pool
    by_cases fetched : pool ∈ pair.2.fetched
    · obtain ⟨phase, flawless⟩ := stopped pool fetched
      exact (holds.cleared pool flawless (by rw [phase]; rfl) (by rw [phase]; simp)).entry
    · exact (holds.uninvolved pool fetched).entry
  have zero : (pair.1.redis.lock name).getD 0 = 0 :=
    holds.balanced.trans (FinMap.total_eq_zero_of_unbound _ unbound)
  exact ⟨zero, unbound, Store.canRun_of_count_eq_zero zero⟩

/-- A pool stops, with all its commands succeeding. -/
def shutdown (names : List String) (id : PoolID) : List Event :=
  [.pool id .stop, .pool id (.worker 0 .stop), .pool id .workersStopped,
    .pool id (.requeueInProgressJobs names .ok), .pool id (.cleanStaleLockInfo true),
    .pool id (.removeFromPools true), .pool id (.removeHeartbeat true), .pool id .advance,
    .pool id .advance, .pool id .advance, .pool id .advance]

theorem lock_cleared_after_stop :
    ∃ pair, (logged single "send").Reachable (fun pair event =>
        OwnPayloads pair.1 event ∧ Unclamped single pair.1 event ∧
          PlainKeys single pair.1 event) pair ∧
      pair.2.fetched = {"A"} ∧ AllStopped pair ∧ (pair.1.redis.lock "send").getD 0 = 0 ∧
      (∀ pool, (pair.1.redis.lockInfo "send").get pool = none) ∧ pair.1.redis.canRun "send" := by
  have run : ∃ pair, (logged single "send").Reachable (fun pair event =>
        OwnPayloads pair.1 event ∧ Unclamped single pair.1 event ∧
          PlainKeys single pair.1 event) pair ∧
      pair.2.fetched = {"A"} ∧ AllStopped pair :=
    TransitionSystem.Reachable.exists_of_run
      (fetchedOnce ++ [.pool "A" (.worker 0 (.finish (completed "1" "send") .ok))] ++
        shutdown ["send"] "A")
      (TransitionSystem.initial_monitored initial_emptyState) (by decide +kernel)
  obtain ⟨pair, reached, fetched, stopped⟩ := run
  exact ⟨pair, reached, fetched, stopped, lock_cleared reached stopped⟩

/-- The first pool is reaped while it runs its job and completes it, and the second one
does the job too and stops first. -/
def stoppedInOrder : List Event :=
  fetchedOnce ++ reapedFirst ++
    [.pool "A" (.worker 0 (.finish (completed "1" "send") .ok)),
      .pool "B" (.worker 0 (.fetch ["send"] .ok)),
      .pool "B" (.worker 0 (.finish (completed "1" "send") .ok))] ++
    shutdown ["send"] "B" ++ shutdown ["send"] "A"

theorem lock_left_after_stop :
    ∃ pair, (logged single "send").Reachable (fun pair event => OwnPayloads pair.1 event) pair ∧
      pair.2.fetched = {"A", "B"} ∧ AllStopped pair ∧ pair.1.redis.lock "send" = some 1 ∧
      pair.1.redis.canRun "send" = false :=
  TransitionSystem.Reachable.exists_of_run stoppedInOrder
    (TransitionSystem.initial_monitored initial_emptyState) (by decide +kernel)

end System
