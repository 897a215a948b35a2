import WorkQueue.Accounting.Concurrency

/-! # Jobs in progress can be recovered

A reaper recovers the jobs of a pool only if the pool is in the set of pools and its
heartbeat lists their names. A pool whose workers fetch only after its first heartbeat,
and whose stop is answered when it requeues its jobs, keeps it that way
(`progress_recoverable`).

The workers of a pool start before its heartbeat, and a stop goes on to remove the
heartbeat when the requeueing fails. In both cases a job can be left behind that no
reaper finds.
-/

namespace System

variable {deployment : Deployment} {state next : State} {event : Event} {id : PoolID}

/-- A reaper that finds the pool dead requeues its jobs of a name. -/
def Recoverable (redis : Store) (id : PoolID) (name : String) : Prop :=
  id ∈ redis.workerPools ∧
    ∃ heartbeat ∈ redis.heartbeat id, name ∈ splitNames heartbeat.jobNames

instance (redis : Store) (name : String) : Decidable (Recoverable redis id name) :=
  inferInstanceAs (Decidable (_ ∧ ∃ _ ∈ _, _))

/-- The reply to the pool when it stops and requeues its jobs. -/
def Event.requeueReplyTo? (id : PoolID) : Event → Option Reply
  | .pool actor (.requeueInProgressJobs _ reply) => if actor = id then some reply else none
  | _ => none

/-- The workers of the pool fetch only when the pool has joined the set of pools and has
written a heartbeat, its stop is answered when it requeues its jobs, and reapers do not
take it for dead. -/
def Announced (id : PoolID) (state : State) (event : Event) : Prop :=
  (event.fetcher? = some id → id ∈ state.redis.workerPools ∧ state.redis.heartbeat id ≠ none) ∧
    (∀ reply ∈ event.requeueReplyTo? id, reply = .ok) ∧ takenForDead? state event ≠ some id

instance (state : State) (event : Event) : Decidable (Announced id state event) :=
  inferInstanceAs (Decidable (_ ∧ _ ∧ _))

/-- What an announced pool keeps: its lists are empty after it has requeued its jobs, no
reaper targets it, its heartbeat is its own, and as long as it has a job in progress it is
in the set of pools and has a heartbeat. -/
structure Announcing (deployment : Deployment) (id : PoolID) (state : State) : Prop where
  retired : (state.pools id).phase.retired → state.redis.Quiet id
  reapers : ∀ reaper, id ∉ (state.pools reaper).reaper.targets
  own : ∀ heartbeat ∈ state.redis.heartbeat id,
    ∃ startedAt now, heartbeat = (deployment.pool id).heartbeat startedAt now
  present : ∀ name, state.redis.list (.inProgress id name) ≠ [] →
    id ∈ state.redis.workerPools ∧ state.redis.heartbeat id ≠ none

namespace Announcing

theorem own_step (announcing : Announcing deployment id state)
    (stepped : step deployment state event = some next) :
    ∀ heartbeat ∈ next.redis.heartbeat id,
      ∃ startedAt now, heartbeat = (deployment.pool id).heartbeat startedAt now := by
  have deleted : ∀ pool, ∀ heartbeat ∈ (Reaper.delHeartbeat state.redis pool).heartbeat id,
      ∃ startedAt now, heartbeat = (deployment.pool id).heartbeat startedAt now := by
    intro pool heartbeat found
    by_cases same : id = pool
    · subst same
      simp only [Reaper.delHeartbeat, Function.update_self, Option.mem_def, reduceCtorEq] at found
    · simp only [Reaper.delHeartbeat, Function.update_of_ne same] at found
      exact announcing.own heartbeat found
  cases step_presence stepped with
  | same kept =>
      rw [kept.heartbeat]
      exact announcing.own
  | joined _ _ after | left _ _ after | reapRemoved _ _ after => exact after ▸ announcing.own
  | forgotten _ _ after | reapDeleted _ _ after => exact after ▸ deleted _
  | @beat other now startedAt _ _ _ after =>
      intro heartbeat found
      rw [after] at found
      by_cases same : id = other
      · subst same
        simp only [Pool.hmsetHeartbeat, Function.update_self, Option.mem_def,
          Option.some.injEq] at found
        exact ⟨startedAt, now, found.symm⟩
      · simp only [Pool.hmsetHeartbeat, Function.update_of_ne same] at found
        exact announcing.own heartbeat found

theorem retired_step (announcing : Announcing deployment id state)
    (regular : Regular deployment state) (announced : Announced id state event)
    (stepped : step deployment state event = some next)
    (retired : (next.pools id).phase.retired) : next.redis.Quiet id := by
  rcases step_pool_cases stepped id with ⟨_, same⟩ | ⟨poolEvent, rfl, moved⟩
  · rw [same] at retired
    refine quiet_step stepped (announcing.retired retired) ?_
    by_contra alive
    rw [Phase.retired_of_alive (Bool.eq_true_of_not_eq_false alive)] at retired
    cases retired
  · have answered : ∀ reply ∈ (Event.pool id poolEvent).requeueReply?, reply = .ok := by
      intro reply member
      refine announced.2.1 reply ?_
      cases poolEvent with
      | requeueInProgressJobs order answer =>
          obtain rfl := Option.some.inj member
          simp only [Event.requeueReplyTo?, ↓reduceIte, Option.mem_def]
      | _ => cases member
    obtain ⟨quiet, halted⟩ := retired_move regular announcing.retired answered moved retired
    exact quiet_step stepped quiet halted

theorem reapers_step (announcing : Announcing deployment id state)
    (announced : Announced id state event) (stepped : step deployment state event = some next)
    (reaper : PoolID) : id ∉ (next.pools reaper).reaper.targets := by
  intro member
  rcases step_targets stepped member with old | found
  · exact announcing.reapers reaper old
  · exact announced.2.2 found

/-- The pool stays in the set of pools with a heartbeat as long as it has jobs in
progress. -/
theorem present_step (announcing : Announcing deployment id state)
    (announced : Announced id state event) (stepped : step deployment state event = some next)
    {name : String} (nonempty : next.redis.list (.inProgress id name) ≠ []) :
    id ∈ next.redis.workerPools ∧ next.redis.heartbeat id ≠ none := by
  have before : id ∈ state.redis.workerPools ∧ state.redis.heartbeat id ≠ none := by
    obtain ⟨raw, member⟩ := List.exists_mem_of_ne_nil _ nonempty
    rcases step_progress_mem stepped member with old | ⟨_, _, index, order, reply, rfl⟩
    · exact announcing.present name (List.ne_nil_of_mem old)
    · exact announced.1 rfl
  have busy : ¬ (state.pools id).phase.retired := by
    intro retired
    refine nonempty (quiet_step stepped (announcing.retired retired) ?_ name)
    by_contra alive
    rw [Phase.retired_of_alive (Bool.eq_true_of_not_eq_false alive)] at retired
    cases retired
  cases step_presence stepped with
  | same kept =>
      rw [kept.workerPools, kept.heartbeat]
      exact before
  | joined _ _ after =>
      rw [after]
      exact ⟨Finset.mem_insert_of_mem before.1, before.2⟩
  | @beat other now startedAt _ _ _ after =>
      rw [after]
      refine ⟨before.1, ?_⟩
      by_cases same : id = other
      · subst same
        simp only [Pool.hmsetHeartbeat, Function.update_self, ne_eq, reduceCtorEq,
          not_false_eq_true]
      · simp only [Pool.hmsetHeartbeat, Function.update_of_ne same]
        exact before.2
  | @left other _ phase after =>
      have different : id ≠ other := by
        rintro rfl
        exact busy (by rw [phase]; rfl)
      rw [after]
      exact ⟨Finset.mem_erase.mpr ⟨different, before.1⟩, before.2⟩
  | @forgotten other _ phase after =>
      have different : id ≠ other := by
        rintro rfl
        exact busy (by rw [phase]; rfl)
      rw [after]
      simp only [Reaper.delHeartbeat, Function.update_of_ne different]
      exact before
  | @reapDeleted reaper other jobTypes todo reply _ current after =>
      have different : id ≠ other := by
        rintro rfl
        refine announcing.reapers reaper ?_
        rw [current]
        exact List.mem_cons_self
      rw [after]
      simp only [Reaper.delHeartbeat, Function.update_of_ne different]
      exact before
  | @reapRemoved reaper other lockJobTypes todo reply _ current after =>
      have different : id ≠ other := by
        rintro rfl
        refine announcing.reapers reaper ?_
        rw [current]
        exact List.mem_cons_self
      rw [after]
      exact ⟨Finset.mem_erase.mpr ⟨different, before.1⟩, before.2⟩

theorem reachable (reached : (system deployment).Reachable (Announced id) state) :
    Announcing deployment id state := by
  refine reached.invariant (Announcing deployment id) ?_ ?_
  · intro start begun
    refine ⟨fun _ name => begun.list _, ?_, ?_, fun name nonempty => (nonempty (begun.list _)).elim⟩
    · intro reaper
      rw [begun.pools]
      exact List.not_mem_nil
    · intro heartbeat found
      rw [begun.heartbeat] at found
      cases found
  · intro source event target reachedSource announcing announced stepped
    exact ⟨announcing.retired_step (Regular.reachable reachedSource) announced stepped,
      announcing.reapers_step announced stepped, announcing.own_step stepped,
      fun name => announcing.present_step announced stepped⟩

end Announcing

/-- In every run in which the pool is announced, its jobs in progress under a name without
a comma can be recovered, whatever happened to the pool. -/
theorem progress_recoverable (reached : (system deployment).Reachable (Announced id) state)
    {name : String} (plain : ',' ∉ name.toList)
    (nonempty : state.redis.list (.inProgress id name) ≠ []) :
    Recoverable state.redis id name := by
  have announcing := Announcing.reachable reached
  have regular : Regular deployment state := Regular.reachable reached
  obtain ⟨member, present⟩ := announcing.present name nonempty
  obtain ⟨heartbeat, found⟩ := Option.ne_none_iff_exists'.mp present
  obtain ⟨startedAt, now, rfl⟩ := announcing.own heartbeat found
  exact ⟨member, _, found,
    PoolConfig.mem_heartbeat (regular.registered id name nonempty) plain startedAt now⟩

theorem progress_recoverable_crashed :
    ∃ state, (system single).Reachable (Announced "A") state ∧
      (state.pools "A").phase = .crashed ∧ state.redis.list (.inProgress "A" "send") ≠ [] ∧
      Recoverable state.redis "A" "send" := by
  have run : ∃ state, (system single).Reachable (Announced "A") state ∧
      (state.pools "A").phase = .crashed ∧ state.redis.list (.inProgress "A" "send") ≠ [] :=
    TransitionSystem.Reachable.exists_of_run (fetchedOnce ++ [.pool "A" .crash])
      initial_emptyState (by decide)
  obtain ⟨state, reached, crashed, nonempty⟩ := run
  exact ⟨state, reached, crashed, nonempty, progress_recoverable reached (by decide) nonempty⟩

/-- A worker fetches a job before the first heartbeat of its pool, and the pool crashes. -/
def crashedEarly : List Event :=
  [.pool "A" .start, .pool "A" (.writeConcurrency "send" true), .pool "A" .launch,
    .enqueuer (.enqueue "send" "1" 0 none), .pool "A" (.worker 0 (.fetch ["send"] .ok)),
    .pool "A" .crash]

/-- The completion of a job fails, and so does the requeueing when the pool stops. -/
def stoppedUnanswered : List Event :=
  fetchedOnce ++
    [.worker 0 (.finish (completed "1" "send") .failed), .stop, .worker 0 .stop, .workersStopped,
      .requeueInProgressJobs ["send"] .failed, .cleanStaleLockInfo true, .removeFromPools true,
      .removeHeartbeat true, .advance, .advance, .advance, .advance].map (.pool "A")

theorem progress_left_behind :
    (∃ state, (system single).Reachable (fun state event =>
        OwnPayloads state event ∧ takenForDead? state event ≠ some "A") state ∧
      (state.pools "A").phase = .crashed ∧ state.redis.list (.inProgress "A" "send") ≠ [] ∧
      ¬ Recoverable state.redis "A" "send") ∧
    ∃ state, (system single).Reachable (fun state event =>
        OwnPayloads state event ∧ takenForDead? state event ≠ some "A") state ∧
      (state.pools "A").phase = .stopped ∧ state.redis.list (.inProgress "A" "send") ≠ [] ∧
      ¬ Recoverable state.redis "A" "send" :=
  ⟨TransitionSystem.Reachable.exists_of_run crashedEarly initial_emptyState (by decide),
    TransitionSystem.Reachable.exists_of_run stoppedUnanswered initial_emptyState (by decide)⟩

end System
