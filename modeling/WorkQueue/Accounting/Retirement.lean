import WorkQueue.Accounting.Locks
import WorkQueue.System.Holding
import WorkQueue.System.Presence

/-! # The locks of a pool are cleaned up when its lists are empty

A pool that stops, and a reaper that has taken a crashed pool for dead, first requeue
what is in progress and then clean up the locks. In runs in which the requeueing is
not cut short and the heartbeat of a reaped pool lists all its job names (`Orderly`), the
lists are empty by then (`Retirement`), so that every step of such a run is matched
(`Orderly.matched`).
-/

/-- The stages of a stopping pool after it has requeued its jobs. -/
def Phase.retired : Phase → Bool
  | .cleaning | .removingFromPools | .removingHeartbeat | .stoppingRetrier | .stoppingScheduler
  | .stoppingReaper | .stoppingPeriodic | .stopped => true
  | _ => false

theorem Phase.retired_of_alive {phase : Phase} (alive : phase.workersAlive) :
    phase.retired = false := by
  cases phase with
  | running | stopping => rfl
  | _ => cases alive

theorem Phase.retired_of_advance {phase next : Phase} (moved : phase.advance = some next) :
    phase.retired ∧ phase ≠ .cleaning := by
  cases phase with
  | stoppingRetrier | stoppingScheduler | stoppingReaper | stoppingPeriodic => exact ⟨rfl, by simp⟩
  | _ => cases moved

/-- Nothing is in progress in a pool. -/
def Store.Quiet (redis : Store) (id : PoolID) : Prop :=
  ∀ name, redis.list (.inProgress id name) = []

namespace System

variable {deployment : Deployment} {state next : State} {event : Event}

/-- The reply to a stopping pool that requeues its jobs. -/
def Event.requeueReply? : Event → Option Reply
  | .pool _ (.requeueInProgressJobs _ reply) => some reply
  | _ => none

/-- The heartbeat of a pool lists all its job names. -/
def Listed (deployment : Deployment) (redis : Store) (id : PoolID) : Prop :=
  ∀ heartbeat ∈ redis.heartbeat id,
    ∀ name ∈ (deployment.pool id).names, name ∈ splitNames heartbeat.jobNames

/-- A pool with a heartbeat that lists all its job names, or with nothing in progress
under them. -/
def Recorded (deployment : Deployment) (redis : Store) (id : PoolID) : Prop :=
  (redis.heartbeat id ≠ none ∧ Listed deployment redis id) ∨
    ∀ name ∈ (deployment.pool id).names, redis.list (.inProgress id name) = []

/-- Runs of the system's own payloads in which Redis answers a stopping pool that
requeues its jobs, and reapers take a pool for dead only if it has crashed and left a
heartbeat that lists its job names, or nothing in progress. -/
def Orderly (deployment : Deployment) (state : State) (event : Event) : Prop :=
  OwnPayloads state event ∧ ReapsCrashed state event ∧
    (∀ reply ∈ event.requeueReply?, reply = .ok) ∧
    ∀ target ∈ takenForDead? state event, Recorded deployment state.redis target

instance (redis : Store) (id : PoolID) : Decidable (Listed deployment redis id) :=
  inferInstanceAs (Decidable (∀ heartbeat ∈ redis.heartbeat id, _))

instance (redis : Store) (id : PoolID) : Decidable (Recorded deployment redis id) :=
  inferInstanceAs (Decidable (_ ∨ _))

instance (state : State) (event : Event) : Decidable (Orderly deployment state event) :=
  inferInstanceAs (Decidable (_ ∧ _ ∧ _ ∧ _))

/-- A dead pool that a reaper has found, with the job names it requeues. -/
def Found (deployment : Deployment) (redis : Store) (entry : PoolID × List String) : Prop :=
  redis.Quiet entry.1 ∨ ∀ name ∈ (deployment.pool entry.1).names, name ∈ entry.2

/-- What a reaper knows of the pools it has taken for dead. -/
def AtReaper (deployment : Deployment) (redis : Store) : Reaper.State → Prop
  | .idle => True
  | .scanning _ found => ∀ entry ∈ found, Found deployment redis entry
  | .reading pool _ found =>
      (redis.Quiet pool ∨ Listed deployment redis pool) ∧
        ∀ entry ∈ found, Found deployment redis entry
  | .requeueing pool jobTypes todo =>
      Found deployment redis (pool, jobTypes) ∧ ∀ entry ∈ todo, Found deployment redis entry
  | .deleting pool _ todo => redis.Quiet pool ∧ ∀ entry ∈ todo, Found deployment redis entry
  | .removing pool _ todo => redis.Quiet pool ∧ ∀ entry ∈ todo, Found deployment redis entry
  | .cleaning pool _ todo => redis.Quiet pool ∧ ∀ entry ∈ todo, Found deployment redis entry

/-- The lists of a pool are empty once it has requeued its jobs, or a reaper has. -/
structure Retirement (deployment : Deployment) (state : State) : Prop where
  retired : ∀ id, (state.pools id).phase.retired → state.redis.Quiet id
  reapers : ∀ id, AtReaper deployment state.redis (state.pools id).reaper

section Steps

variable {id : PoolID}

/-- A pool without jobs in progress has none before its workers run again. -/
theorem quiet_step (stepped : step deployment state event = some next)
    (quiet : state.redis.Quiet id) (halted : (state.pools id).phase.workersAlive = false) :
    next.redis.Quiet id := by
  intro name
  refine List.eq_nil_iff_forall_not_mem.mpr ?_
  intro raw member
  rcases step_progress_mem stepped member with old | ⟨_, alive, _⟩
  · rw [quiet name] at old
    exact List.not_mem_nil old
  · rw [halted] at alive
    cases alive

/-- The heartbeat of a crashed pool is never written again. -/
theorem listed_step (stepped : step deployment state event = some next)
    (listed : Listed deployment state.redis id) (crashed : (state.pools id).phase = .crashed) :
    Listed deployment next.redis id := by
  have deleted : ∀ pool, Listed deployment (Reaper.delHeartbeat state.redis pool) id := by
    intro pool heartbeat present
    by_cases same : id = pool
    · subst same
      simp only [Reaper.delHeartbeat, Function.update_self, Option.mem_def, reduceCtorEq] at present
    · simp only [Reaper.delHeartbeat, Function.update_of_ne same] at present
      exact listed heartbeat present
  cases step_presence stepped with
  | same kept =>
      unfold Listed
      rw [kept.heartbeat]
      exact listed
  | @beat other now startedAt _ alive _ after =>
      have different : id ≠ other := by
        rintro rfl
        rw [crashed] at alive
        cases alive
      intro heartbeat present
      rw [after] at present
      simp only [Pool.hmsetHeartbeat, Function.update_of_ne different] at present
      exact listed heartbeat present
  | joined _ _ after | left _ _ after | reapRemoved _ _ after => exact after ▸ listed
  | forgotten _ _ after | reapDeleted _ _ after => exact after ▸ deleted _

/-- What a reaper has found stays true as long as it targets crashed pools. -/
theorem found_step (stepped : step deployment state event = some next)
    {entry : PoolID × List String} (found : Found deployment state.redis entry)
    (crashed : (state.pools entry.1).phase = .crashed) : Found deployment next.redis entry := by
  rcases found with quiet | listed
  · exact .inl (quiet_step stepped quiet (by rw [crashed]; rfl))
  · exact .inr listed

theorem atReaper_step (stepped : step deployment state event = some next) {reaper : Reaper.State}
    (crashed : ∀ target ∈ reaper.targets, (state.pools target).phase = .crashed)
    (sound : AtReaper deployment state.redis reaper) : AtReaper deployment next.redis reaper := by
  have entries : ∀ found : List (PoolID × List String),
      (∀ entry ∈ found, entry.1 ∈ reaper.targets) →
      (∀ entry ∈ found, Found deployment state.redis entry) →
      ∀ entry ∈ found, Found deployment next.redis entry := by
    intro found targets holds entry member
    exact found_step stepped (holds entry member) (crashed _ (targets entry member))
  have quiet : ∀ pool ∈ reaper.targets, state.redis.Quiet pool → next.redis.Quiet pool := by
    intro pool member empty
    exact quiet_step stepped empty (by rw [crashed pool member]; rfl)
  cases reaper with
  | idle => exact trivial
  | scanning todo found =>
      exact entries found (fun entry member => List.mem_map_of_mem member) sound
  | reading pool todo found =>
      have target : pool ∈ (Reaper.State.reading pool todo found).targets := List.mem_cons_self
      refine ⟨?_, entries found (fun entry member =>
        List.mem_cons_of_mem _ (List.mem_map_of_mem member)) sound.2⟩
      rcases sound.1 with empty | listed
      · exact .inl (quiet pool target empty)
      · exact .inr (listed_step stepped listed (crashed pool target))
  | requeueing pool jobTypes todo =>
      exact ⟨found_step stepped sound.1 (crashed pool List.mem_cons_self),
        entries todo (fun entry member =>
          List.mem_cons_of_mem _ (List.mem_map_of_mem member)) sound.2⟩
  | deleting pool jobTypes todo | removing pool lockJobTypes todo
  | cleaning pool lockJobTypes todo =>
      exact ⟨quiet pool List.mem_cons_self sound.1, entries todo (fun entry member =>
        List.mem_cons_of_mem _ (List.mem_map_of_mem member)) sound.2⟩

/-- A pool has nothing in progress if its lists are empty under all its names. -/
theorem Regular.quiet (regular : Regular deployment state)
    (empty : ∀ name ∈ (deployment.pool id).names, state.redis.list (.inProgress id name) = []) :
    state.redis.Quiet id := by
  intro name
  by_contra nonempty
  exact nonempty (empty name (regular.registered id name nonempty))

/-- A reaper that turns to the next dead pool skips only one with nothing in progress. -/
theorem atReaper_proceed (regular : Regular deployment state) (curJobTypes : List String)
    {todo : List (PoolID × List String)}
    (found : ∀ entry ∈ todo, Found deployment state.redis entry) :
    AtReaper deployment state.redis (Reaper.proceed curJobTypes todo) := by
  cases todo with
  | nil => exact trivial
  | cons first rest =>
      have later : ∀ entry ∈ rest, Found deployment state.redis entry :=
        fun entry member => found entry (List.mem_cons_of_mem _ member)
      have current := found first List.mem_cons_self
      simp only [Reaper.proceed]
      split
      · exact ⟨current, later⟩
      · next nameless =>
          refine ⟨?_, later⟩
          rcases current with quiet | listed
          · exact quiet
          · refine regular.quiet fun name member => ?_
            rw [not_not.mp nameless] at listed
            exact (List.not_mem_nil (listed name member)).elim

/-- A step of a reaper keeps what it knows of the pools it has taken for dead. -/
theorem atReaper_move (regular : Regular deployment state) {before after : Reaper.State}
    {reaperEvent : Reaper.Event} {redis : Store}
    (sound : AtReaper deployment state.redis before) (current : (state.pools id).reaper = before)
    (recorded : ∀ target ∈ takenForDead? state (.pool id (.reaper reaperEvent)),
      Recorded deployment state.redis target)
    (moved : Reaper.Case (deployment.pool id).names state.redis before reaperEvent redis after) :
    AtReaper deployment state.redis after := by
  cases moved with
  | listed => exact fun entry member => (List.not_mem_nil member).elim
  | @expired pool todo found now missing =>
      have target : takenForDead? state (.pool id (.reaper (.heartbeatAt now .ok))) =
          some pool := by
        simp only [takenForDead?, current, missing]
      intro entry member
      rcases List.mem_append.mp member with old | new
      · exact sound entry old
      · obtain rfl := List.mem_singleton.mp new
        rcases recorded pool target with ⟨present, _⟩ | empty
        · exact (present missing).elim
        · exact .inl (regular.quiet empty)
  | alive => exact sound
  | @old pool todo found now heartbeat present late =>
      have target : takenForDead? state (.pool id (.reaper (.heartbeatAt now .ok))) =
          some pool := by
        simp only [takenForDead?, current, present, gt_iff_lt, not_lt.mpr late, ↓reduceIte]
      refine ⟨?_, sound⟩
      rcases recorded pool target with ⟨_, listed⟩ | empty
      · exact .inr listed
      · exact .inl (regular.quiet empty)
  | gone => exact sound.2
  | dead present =>
      intro entry member
      rcases List.mem_append.mp member with old | new
      · exact sound.2 entry old
      · obtain rfl := List.mem_singleton.mp new
        rcases sound.1 with quiet | listed
        · exact .inl quiet
        · exact .inr (listed _ present)
  | begun same =>
      exact atReaper_proceed regular _ fun entry member => sound entry (same.mem_iff.mp member)
  | requeued member split later | deleted later | removed later =>
      rcases later with rfl | rfl
      · exact sound
      · exact trivial
  | emptied empty =>
      refine ⟨?_, sound.2⟩
      rcases sound.1 with quiet | listed
      · exact quiet
      · exact regular.quiet fun name member => empty name (listed name member)
  | cleaned later =>
      rcases later with rfl | rfl
      · exact atReaper_proceed regular _ sound.2
      · exact trivial
  | aborted => exact trivial

/-- A pool reaches the stages after its requeueing with empty lists. -/
theorem retired_move (regular : Regular deployment state)
    (before : (state.pools id).phase.retired → state.redis.Quiet id) {poolEvent : Pool.Event}
    {pool : Pool} {redis : Store}
    (answered : ∀ reply ∈ (Event.pool id poolEvent).requeueReply?, reply = .ok)
    (moved : Pool.Case deployment.ns (deployment.pool id) id state.redis (state.pools id)
      poolEvent redis pool)
    (retired : pool.phase.retired) :
    state.redis.Quiet id ∧ (state.pools id).phase.workersAlive = false := by
  have stays : (state.pools id).phase.retired →
      state.redis.Quiet id ∧ (state.pools id).phase.workersAlive = false := by
    intro already
    refine ⟨before already, ?_⟩
    by_contra alive
    rw [Phase.retired_of_alive (Bool.eq_true_of_not_eq_false alive)] at already
    cases already
  cases moved with
  | started | capped | launched | stopping | halted | crashed => cases retired
  | worked | known | added | beat | requeued | reaped => exact stays retired
  | returned phase =>
      rw [if_pos (answered _ rfl), phase] at retired
      cases retired
  | emptied phase _ empty => exact ⟨regular.quiet empty, by rw [phase]; rfl⟩
  | unreturned phase unanswered => exact (unanswered (answered _ rfl)).elim
  | cleaned phase | removed phase | forgotten phase => exact stays (by rw [phase]; rfl)
  | advanced moved => exact stays (Phase.retired_of_advance moved).1

end Steps

namespace Retirement

theorem step (retirement : Retirement deployment state) (holding : Holding deployment state)
    (orderly : Orderly deployment state event)
    (stepped : System.step deployment state event = some next) : Retirement deployment next where
  retired id retired := by
    rcases step_pool_cases stepped id with ⟨_, same⟩ | ⟨poolEvent, rfl, moved⟩
    · rw [same] at retired
      refine quiet_step stepped (retirement.retired id retired) ?_
      by_contra alive
      rw [Phase.retired_of_alive (Bool.eq_true_of_not_eq_false alive)] at retired
      cases retired
    · obtain ⟨quiet, halted⟩ :=
        retired_move holding.toRegular (retirement.retired id) orderly.2.2.1 moved retired
      exact quiet_step stepped quiet halted
  reapers id := by
    have crashed : ∀ target ∈ (next.pools id).reaper.targets,
        (state.pools target).phase = .crashed := by
      intro target member
      rcases step_targets stepped member with old | found
      · exact holding.reapers id target old
      · exact orderly.2.1 target found
    refine atReaper_step stepped crashed ?_
    rcases step_pool_cases stepped id with ⟨_, same⟩ | ⟨poolEvent, rfl, moved⟩
    · rw [same]
      exact retirement.reapers id
    · have sound := retirement.reapers id
      generalize next.pools id = pool at moved
      generalize next.redis = redis at moved
      cases moved with
      | reaped alive moved => exact atReaper_move holding.toRegular sound rfl orderly.2.2.2 moved
      | launched => exact trivial
      | returned =>
          split
          · exact sound
          · exact sound
      | _ => exact sound

theorem initial (start : Initial state) : Retirement deployment state where
  retired id _ name := start.list _
  reapers id := by
    rw [start.pools]
    exact trivial

/-- `Retirement` in every state reached by an orderly run. -/
theorem reachable (reached : (system deployment).Reachable (Orderly deployment) state) :
    Retirement deployment state := by
  refine reached.invariant (Retirement deployment) ?_ ?_
  · intro start begun
    exact initial begun
  · intro source event target reachedSource retirement orderly stepped
    have holding := Holding.reachable (fun _ _ allowed => allowed.2.1) reachedSource
    exact retirement.step holding orderly stepped

end Retirement

/-- Every step of an orderly run is matched. -/
theorem Orderly.matched (reached : (system deployment).Reachable (Orderly deployment) state)
    (stepped : step deployment state event = some next) : Matched deployment state event := by
  have holding := Holding.reachable (fun _ _ allowed => allowed.2.1) reached
  have retirement := Retirement.reachable reached
  have shapes := (PayloadContract.unconditional deployment fun _ _ => True).reachable
    (reached.mono fun _ _ _ => trivial)
  refine ⟨?_, ?_⟩
  · intro entry completed
    obtain ⟨id, index, finish, reply, job, rfl, running, _, key⟩ := eq_of_completed? completed
    have member := List.mem_of_getElem? running
    obtain ⟨name, _, progress, _⟩ := shapes.workers id _ member
    obtain ⟨pool, _, moved⟩ := step_pool stepped
    have alive : (state.pools id).phase ≠ .crashed := by
      intro crashed
      generalize next.redis = redis at moved
      cases moved with
      | worked alive =>
          rw [crashed] at alive
          cases alive
    rw [key, progress]
    exact holding.mem_of_taken alive member (by rw [Worker.State.taken, progress])
  · intro cleaned found name _
    rcases eq_of_cleanedPool? found with rfl | ⟨id, todo, reply, rfl, current⟩
    · obtain ⟨pool, _, moved⟩ := step_pool stepped
      generalize next.redis = redis at moved
      cases moved with
      | cleaned phase => exact retirement.retired cleaned.1 (by rw [phase]; rfl) name
    · have sound := retirement.reapers id
      rw [current] at sound
      exact sound.1 name

end System
