import WorkQueue.Pool.Handshake
import WorkQueue.System

/-! # Draining a pool

`Drain` asks every worker of a pool to drain and waits until all have acknowledged. A worker
receives the request between two jobs and acknowledges it after a fetch that has come back
empty-handed, and then goes on polling. A fetch also comes back empty-handed when the jobs that
are left are at their limit of concurrency, so a worker may acknowledge too early. If no fetch
is turned away by a limit, then the work queues are empty and no worker has a job when the call
returns (`Drain.queues_drained`). The loops of the workers are those of their handshakes, which
say nothing of the queues (`Drain.shaken_of_reachable`).
-/

namespace Drain

/-- Where the call is with one worker: it sends the request, waits for the acknowledgement, or
has received it. -/
inductive Request where
  | sending
  | waiting
  | done
  deriving DecidableEq

/-- The loop of a worker. It may be about to send its acknowledgement. -/
structure WorkerLoop where
  worker : Worker.State
  drained : Bool := false
  acknowledging : Bool := false
  request : Request := .sending
  deriving DecidableEq

/-- A pool during a call. -/
structure State where
  redis : Store
  loops : List WorkerLoop

/-- The steps: of a worker, and of the channels between a worker and the call. -/
inductive Event where
  | worker (index : ℕ) (event : Worker.Event)
  | receive (index : ℕ)
  | acknowledge (index : ℕ)
  deriving DecidableEq

/-- Whether a worker's step is a fetch that comes back without a job and without an error. -/
def emptyHanded (poolID : PoolID) (redis : Store) : Worker.Event → Bool
  | .fetch order reply => (reply.deliver redis (redis.redisLuaFetchJob poolID order)).2 = some none
  | _ => false

section System

variable (ns : String) (config : PoolConfig) (poolID : PoolID)

/-- One step. -/
def step (state : State) : Event → Option State
  | .worker index event =>
      state.loops[index]?.bind fun loop =>
        if loop.acknowledging then none
        else
          (Worker.step ns config poolID state.redis loop.worker event).map fun (redis, worker) =>
            { redis
              loops := state.loops.set index
                { loop with
                  worker
                  acknowledging := loop.drained && emptyHanded poolID state.redis event } }
  | .receive index =>
      state.loops[index]?.bind fun loop =>
        if loop.worker = .idle ∧ loop.acknowledging = false ∧ loop.request = .sending then
          some { state with
            loops := state.loops.set index { loop with drained := true, request := .waiting } }
        else none
  | .acknowledge index =>
      state.loops[index]?.bind fun loop =>
        if loop.acknowledging ∧ loop.request = .waiting then
          some { state with
            loops := state.loops.set index
              { loop with drained := false, acknowledging := false, request := .done } }
        else none

/-- The call begins when the workers are anywhere in their loops and no queue is paused. -/
def system : TransitionSystem State Event where
  initial state :=
    (∀ loop ∈ state.loops, loop = { worker := loop.worker }) ∧
      ∀ name ∈ config.names, state.redis.paused name = false
  step := step ns config poolID

end System

/-- The call has returned. -/
def Returned (state : State) : Prop := ∀ loop ∈ state.loops, loop.request = .done

instance (state : State) : Decidable (Returned state) :=
  inferInstanceAs (Decidable (∀ loop ∈ state.loops, loop.request = .done))

/-- Fetches return no errors: they are answered, and what they find decodes. -/
def Answered (poolID : PoolID) (state : State) : Event → Prop
  | .worker _ (.fetch order reply) =>
      reply = .ok ∧ ∀ found ∈ (state.redis.redisLuaFetchJob poolID order).2,
        (newJob found.1 found.2.1 found.2.2).isSome
  | _ => True

instance (poolID : PoolID) (state : State) :
    (event : Event) → Decidable (Answered poolID state event)
  | .worker _ (.fetch _ _) => inferInstanceAs (Decidable (_ ∧ _))
  | .worker _ (.getUnique _) | .worker _ (.delUnique _) | .worker _ (.finish _ _)
  | .worker _ .stop | .receive _ | .acknowledge _ => inferInstanceAs (Decidable True)

/-- When a worker fetches, no registered job waits because it is at its limit of concurrency. -/
def Unlimited (config : PoolConfig) (state : State) : Event → Prop
  | .worker _ (.fetch _ _) =>
      ∀ name ∈ config.names, state.redis.list (.jobs name) ≠ [] → state.redis.canRun name
  | _ => True

instance (config : PoolConfig) (state : State) :
    (event : Event) → Decidable (Unlimited config state event)
  | .worker _ (.fetch _ _) => inferInstanceAs (Decidable (∀ name ∈ config.names, _ → _))
  | .worker _ (.getUnique _) | .worker _ (.delUnique _) | .worker _ (.finish _ _)
  | .worker _ .stop | .receive _ | .acknowledge _ => inferInstanceAs (Decidable True)

/-- The work queues of the registered job types are empty. -/
def Empty (config : PoolConfig) (redis : Store) : Prop :=
  ∀ name ∈ config.names, redis.list (.jobs name) = []

/-- The worker has no job. -/
def Free (worker : Worker.State) : Prop := worker = .idle ∨ worker = .stopped

section Steps

variable {ns : String} {config : PoolConfig} {poolID : PoolID} {redis next : Store}
  {worker worker' : Worker.State} {event : Worker.Event}

/-- A fetch comes back without a job only if every queue is empty, paused or at its limit. -/
theorem blocked_of_fetch {names : List String}
    (nothing : (redis.redisLuaFetchJob poolID names).2 = none) :
    ∀ name ∈ names, redis.list (.jobs name) ≠ [] → redis.paused name = false →
      ¬ redis.canRun name := by
  induction names with
  | nil => simp
  | cons first names ih =>
      unfold Store.redisLuaFetchJob at nothing
      split at nothing
      · next runnable =>
          cases moved : (redis.acquireLock first poolID).rpoplpush (.jobs first)
              (.inProgress poolID first) with
          | some pair =>
              rw [moved] at nothing
              cases nothing
          | none =>
              have drained : (redis.acquireLock first poolID).list (.jobs first) = [] :=
                Store.rpoplpush_eq_none moved
              exact (runnable.1 drained).elim
      · next blocked =>
          intro name member waiting unpaused runnable
          rcases List.mem_cons.mp member with rfl | later
          · exact blocked ⟨waiting, unpaused, runnable⟩
          · exact ih nothing name later waiting unpaused runnable

/-- A fetch that comes back empty-handed without being turned away has found empty queues. -/
theorem empty_of_emptyHanded (unpaused : ∀ name ∈ config.names, redis.paused name = false)
    {order : List String} {reply : Reply}
    (unlimited : ∀ name ∈ config.names, redis.list (.jobs name) ≠ [] → redis.canRun name)
    (nothing : emptyHanded poolID redis (.fetch order reply))
    (stepped : Worker.step ns config poolID redis worker (.fetch order reply) =
      some (next, worker')) : Empty config redis ∧ Free worker := by
  have answer : (redis.redisLuaFetchJob poolID order).2 = none := by
    have delivered := of_decide_eq_true nothing
    cases reply with
    | ok => exact Option.some.inj delivered
    | lost | failed => cases delivered
  cases worker with
  | idle =>
      obtain ⟨sampled, stepped⟩ := Option.ite_none_right_eq_some.mp stepped
      refine ⟨fun name member => ?_, .inl rfl⟩
      by_contra waiting
      exact blocked_of_fetch answer name (sampled.mem_iff.mpr member) waiting
        (unpaused name member) (unlimited name member waiting)
  | fetched | gotUnique | running | stopped => cases stepped

/-- Steps of workers keep empty queues empty, and then a worker without a job gets none. -/
theorem empty_step (empty : Empty config redis)
    (moved : Worker.Case ns config poolID redis worker event next worker') :
    Empty config next ∧ (Free worker → Free worker') := by
  cases moved with
  | nothing => exact ⟨empty, id⟩
  | @taken order reply name raw rest member executed split =>
      rw [empty name member] at split
      exact absurd split.symm (by simp)
  | got | missed | deleted | unanswered | undeleted =>
      exact ⟨empty, fun free => by simp [Free] at free⟩
  | @finished job raw finish reply =>
      refine ⟨fun name member => ?_, fun _ => .inl rfl⟩
      rw [Worker.list_removeJobFromInProgress, Store.lrem]
      dsimp only
      by_cases same : .jobs name = job.inProgQueue
      · rw [← same, Function.update_self, empty name member, List.erase_nil]
      · rw [Function.update_of_ne same, empty name member]
  | unfinished => exact ⟨empty, fun _ => .inl rfl⟩
  | stopped => exact ⟨empty, fun _ => .inr rfl⟩

theorem paused_step (moved : Worker.Case ns config poolID redis worker event next worker') :
    next.paused = redis.paused := by
  cases moved with
  | finished =>
      unfold Worker.removeJobFromInProgress
      split <;> rfl
  | _ => rfl

end Steps

section Handshakes

/-- A job as the observer of its worker is told. -/
def task (job : FetchedJob) : Handshake.Task where
  jobName := job.name
  jobID := job.id
  arguments := job.args
  marshals := true

/-- Whether a job has a handler, so that its run is announced. -/
def handled (config : PoolConfig) (job : FetchedJob) : Bool := (config.jobType? job.name).isSome

/-- Where the loop of a worker is in its handshake. The lookup of a unique job is part of the
fetch. -/
def WorkerLoop.place (config : PoolConfig) (loop : WorkerLoop) : Handshake.WorkerLoop :=
  match loop.worker with
  | .idle => if loop.acknowledging then .reporting else .selecting
  | .fetched _ | .gotUnique _ _ => .fetching
  | .running job _ => if handled config job then .announcing (task job) else .settling
  | .stopped => .ended

/-- Where the call is before it goes on to the observer. -/
def Request.call : Request → Handshake.DrainCall
  | .sending => .sendingWorker
  | .waiting => .awaitingWorker
  | .done => .sendingObserver

/-- A worker with one call, while its observer has nothing to do. -/
def WorkerLoop.handshake (config : PoolConfig) (loop : WorkerLoop) (world : Observer.World) :
    Handshake.State where
  worker := loop.place config
  drained := loop.drained
  observer := .selecting
  observations := []
  world := world
  stop := if loop.worker = .stopped then .sendingDrain else .before
  drains := [loop.request.call]

/-- A loop is as a run of the handshake of its worker leaves it. -/
structure Shaken (config : PoolConfig) (loop : WorkerLoop) : Prop where
  acknowledging : loop.acknowledging → loop.worker = .idle
  reached : ∃ world, Handshake.system.Reachable (fun _ _ => True) (loop.handshake config world)

namespace Shaken

variable {ns : String} {config : PoolConfig} {poolID : PoolID} {redis next : Store}
  {loop : WorkerLoop} {worker' : Worker.State} {event : Worker.Event}

/-- The handshake takes some steps. -/
theorem follow {next : WorkerLoop} (shaken : Shaken config loop) (events : List Handshake.Event)
    (acknowledging : next.acknowledging → next.worker = .idle)
    (executed : ∀ world, ∃ world', Handshake.system.run (fun _ _ => True)
      (loop.handshake config world) events = some (next.handshake config world')) :
    Shaken config next := by
  obtain ⟨world, reached⟩ := shaken.reached
  obtain ⟨world', executed⟩ := executed world
  exact ⟨acknowledging, world', reached.run executed⟩

/-- A call begins with a worker anywhere in its loop. -/
theorem initial (config : PoolConfig) (worker : Worker.State) : Shaken config { worker } := by
  have waits : Shaken config { worker := .idle } :=
    ⟨nofun, _, .run (.initial rfl) (show Handshake.system.run (fun _ _ => True) _
      [.start, .beginWorker, .beginObserver, .callDrain] = some _ from rfl)⟩
  cases worker with
  | idle => exact waits
  | fetched | gotUnique => exact waits.follow [.timer] nofun fun _ => ⟨_, rfl⟩
  | running job =>
      exact waits.follow [.timer, .fetched (task job) (handled config job)] nofun
        fun _ => ⟨_, rfl⟩
  | stopped =>
      exact waits.follow [.callStop, .stopWorker, .workerStopped] nofun fun _ => ⟨_, rfl⟩

/-- A step of a worker is some steps of its handshake. -/
theorem worked (shaken : Shaken config loop) (silent : loop.acknowledging = false)
    (moved : Worker.Case ns config poolID redis loop.worker event next worker') :
    Shaken config { loop with
      worker := worker', acknowledging := loop.drained && emptyHanded poolID redis event } := by
  obtain ⟨before, drained, acknowledging, request⟩ := loop
  cases silent
  dsimp only at moved ⊢
  -- Unless a fetch comes back empty-handed, the worker has nothing to acknowledge.
  have goes : ∀ events, emptyHanded poolID redis event = false →
      (∀ world, ∃ world', Handshake.system.run (fun _ _ => True)
        (WorkerLoop.handshake config ⟨before, drained, false, request⟩ world) events =
          some (WorkerLoop.handshake config ⟨worker', drained, false, request⟩ world')) →
      Shaken config ⟨worker', drained, drained && emptyHanded poolID redis event, request⟩ := by
    intro events busy executed
    rw [busy, Bool.and_false]
    exact shaken.follow events nofun executed
  cases moved with
  | @nothing order reply found =>
      cases reply with
      | ok =>
          have nothing : emptyHanded poolID redis (.fetch order .ok) = true := by
            simp [emptyHanded, Reply.deliver, found]
          rw [nothing, Bool.and_true]
          exact shaken.follow [.timer, .fetchedNothing] (fun _ => rfl) fun _ => ⟨_, rfl⟩
      | lost | failed => exact goes [.timer, .fetchFailed] rfl fun _ => ⟨_, rfl⟩
  | @taken order reply name raw _ _ _ _ _ _ found =>
      have busy : emptyHanded poolID redis (.fetch order reply) = false := by
        cases reply <;> simp [emptyHanded, Reply.deliver, found]
      revert goes
      rw [Worker.received_some]
      cases newJob raw (.jobs name) (.inProgress poolID name) with
      | none =>
          rw [ite_self]
          exact fun goes => goes [.timer, .fetchFailed] busy fun _ => ⟨_, rfl⟩
      | some job =>
          dsimp only
          split_ifs
          · exact fun goes => goes [.timer] busy fun _ => ⟨_, rfl⟩
          · exact fun goes => goes [.timer, .fetched (task job) (handled config job)] busy
              fun _ => ⟨_, rfl⟩
          · exact fun goes => goes [.timer, .fetchFailed] busy fun _ => ⟨_, rfl⟩
  | got => exact goes [] rfl fun _ => ⟨_, rfl⟩
  | @missed job | @unanswered job | @undeleted job =>
      exact goes [.fetched (task job) (handled config job)] rfl fun _ => ⟨_, rfl⟩
  | @deleted job raw =>
      exact goes [.fetched (task (Worker.updatedJob job raw)) (handled config _)] rfl
        fun _ => ⟨_, rfl⟩
  | @finished job | @unfinished job =>
      cases known : handled config job with
      | true =>
          refine goes [.observeStarted 0, .handlerEnds none, .observeDone, .settle,
            .observe true, .observe true] rfl fun _ => ?_
          simp only [WorkerLoop.handshake, WorkerLoop.place, known]
          exact ⟨_, rfl⟩
      | false =>
          refine goes [.settle] rfl fun _ => ?_
          simp only [WorkerLoop.handshake, WorkerLoop.place, known]
          exact ⟨_, rfl⟩
  | stopped => exact goes [.callStop, .stopWorker, .workerStopped] rfl fun _ => ⟨_, rfl⟩

/-- A step of the pool is some steps of the handshakes. -/
theorem step {state target : State} {event : Event}
    (shaken : ∀ loop ∈ state.loops, Shaken config loop)
    (stepped : Drain.step ns config poolID state event = some target) :
    ∀ loop ∈ target.loops, Shaken config loop := by
  have replaced : ∀ {index : ℕ} {after : WorkerLoop}, Shaken config after →
      ∀ loop ∈ state.loops.set index after, Shaken config loop := by
    intro index after own loop member
    rcases List.mem_or_eq_of_mem_set member with old | rfl
    · exact shaken loop old
    · exact own
  cases event with
  | worker index event =>
      obtain ⟨loop, found, stepped⟩ := Option.bind_eq_some_iff.mp stepped
      obtain ⟨silent, stepped⟩ := Option.ite_none_left_eq_some.mp stepped
      obtain ⟨⟨redis, worker⟩, moved, rfl⟩ := Option.map_eq_some_iff.mp stepped
      exact replaced ((shaken loop (List.mem_of_getElem? found)).worked
        (Bool.eq_false_iff.mpr silent) (Worker.step_cases moved))
  | receive index =>
      obtain ⟨⟨worker, drained, _, _⟩, found, stepped⟩ := Option.bind_eq_some_iff.mp stepped
      obtain ⟨⟨rfl, rfl, rfl⟩, ⟨⟩⟩ := Option.ite_none_right_eq_some.mp stepped
      exact replaced ((shaken _ (List.mem_of_getElem? found)).follow [.drainWorker 0] nofun
        fun _ => ⟨_, rfl⟩)
  | acknowledge index =>
      obtain ⟨⟨worker, drained, _, _⟩, found, stepped⟩ := Option.bind_eq_some_iff.mp stepped
      obtain ⟨⟨rfl, rfl⟩, ⟨⟩⟩ := Option.ite_none_right_eq_some.mp stepped
      have own := shaken _ (List.mem_of_getElem? found)
      obtain rfl := own.acknowledging rfl
      exact replaced (own.follow [.workerDrained 0] nofun fun _ => ⟨_, rfl⟩)

end Shaken

/-- During a call, the loop of every worker is as a run of its own handshake leaves it. -/
theorem shaken_of_reachable {ns : String} {config : PoolConfig} {poolID : PoolID} {state : State}
    {scope : State → Event → Prop} (reached : (system ns config poolID).Reachable scope state) :
    ∀ loop ∈ state.loops, Shaken config loop := by
  apply reached.invariant fun state => ∀ loop ∈ state.loops, Shaken config loop
  · rintro start ⟨fresh, -⟩ loop member
    rw [fresh loop member]
    exact .initial config _
  · intro source event target _ shaken _ stepped
    exact Shaken.step shaken stepped

end Handshakes

/-- Once a worker has found nothing and acknowledges, the queues are empty, and it has no job. -/
structure FoundEmpty (config : PoolConfig) (state : State) : Prop where
  unpaused : ∀ name ∈ config.names, state.redis.paused name = false
  empty : ∀ loop ∈ state.loops, loop.acknowledging ∨ loop.request = .done →
    Empty config state.redis
  free : ∀ loop ∈ state.loops, loop.acknowledging ∨ loop.request = .done → Free loop.worker

namespace FoundEmpty

variable {ns : String} {config : PoolConfig} {poolID : PoolID} {state next : State}

/-- Replacing the loop of one worker. -/
theorem set {redis : Store} {index : ℕ} {loop : WorkerLoop}
    (known : FoundEmpty config state)
    (unpaused : redis.paused = state.redis.paused)
    (emptied : Empty config state.redis → Empty config redis)
    (ready : loop.acknowledging ∨ loop.request = .done → Empty config redis ∧ Free loop.worker) :
    FoundEmpty config { redis, loops := state.loops.set index loop } where
  unpaused := unpaused ▸ known.unpaused
  empty other member acknowledged := by
    rcases List.mem_or_eq_of_mem_set member with old | rfl
    · exact emptied (known.empty other old acknowledged)
    · exact (ready acknowledged).1
  free other member acknowledged := by
    rcases List.mem_or_eq_of_mem_set member with old | rfl
    · exact known.free other old acknowledged
    · exact (ready acknowledged).2

theorem step {event : Event} (known : FoundEmpty config state)
    (unlimited : Unlimited config state event)
    (stepped : Drain.step ns config poolID state event = some next) : FoundEmpty config next := by
  cases event with
  | worker index event =>
      obtain ⟨loop, found, stepped⟩ := Option.bind_eq_some_iff.mp stepped
      have member := List.mem_of_getElem? found
      split at stepped
      · cases stepped
      · next silent =>
          obtain ⟨⟨redis, worker⟩, moved, rfl⟩ := Option.map_eq_some_iff.mp stepped
          have moves := Worker.step_cases moved
          refine known.set (paused_step moves) (fun empty => (empty_step empty moves).1) ?_
          rintro (acknowledging | done)
          · have nothing := (Bool.and_eq_true_iff.mp acknowledging).2
            cases event with
            | fetch order reply =>
                obtain ⟨empty, free⟩ :=
                  empty_of_emptyHanded known.unpaused unlimited nothing moved
                exact ⟨(empty_step empty moves).1, (empty_step empty moves).2 free⟩
            | getUnique | delUnique | finish | stop => cases nothing
          · have empty := known.empty loop member (.inr done)
            exact ⟨(empty_step empty moves).1,
              (empty_step empty moves).2 (known.free loop member (.inr done))⟩
  | receive index =>
      obtain ⟨loop, found, stepped⟩ := Option.bind_eq_some_iff.mp stepped
      obtain ⟨idle, stepped⟩ := Option.ite_none_right_eq_some.mp stepped
      obtain rfl := Option.some.inj stepped
      refine known.set rfl id ?_
      rintro (acknowledging | done)
      · rw [idle.2.1] at acknowledging
        cases acknowledging
      · cases done
  | acknowledge index =>
      obtain ⟨loop, found, stepped⟩ := Option.bind_eq_some_iff.mp stepped
      have member := List.mem_of_getElem? found
      obtain ⟨ready, stepped⟩ := Option.ite_none_right_eq_some.mp stepped
      obtain rfl := Option.some.inj stepped
      exact known.set rfl id fun _ =>
        ⟨known.empty loop member (.inl ready.1), known.free loop member (.inl ready.1)⟩

end FoundEmpty

/-- In every run in which fetches return no errors and are not turned away by a limit of
concurrency: when the call returns for a pool with a worker, the work queues of all registered
job types are empty and every job that was fetched has completed, as no worker has a job. -/
theorem queues_drained {ns : String} {config : PoolConfig} {poolID : PoolID} {state : State}
    (reached : (system ns config poolID).Reachable
      (fun state event => Answered poolID state event ∧ Unlimited config state event) state)
    (workers : state.loops ≠ []) (returned : Returned state) :
    (∀ name ∈ config.names, state.redis.list (.jobs name) = []) ∧
      ∀ loop ∈ state.loops, loop.worker = .idle ∨ loop.worker = .stopped := by
  have known : FoundEmpty config state := by
    refine reached.invariant (FoundEmpty config) ?_ ?_
    · rintro start ⟨fresh, unpaused⟩
      have silent : ∀ loop ∈ start.loops, ¬ (loop.acknowledging ∨ loop.request = .done) := by
        intro loop member
        rw [fresh loop member]
        simp
      exact ⟨unpaused, fun loop member acknowledged => (silent loop member acknowledged).elim,
        fun loop member acknowledged => (silent loop member acknowledged).elim⟩
    · intro source event target _ known allowed stepped
      exact known.step allowed.2 stepped
  obtain ⟨loop, member⟩ := List.exists_mem_of_ne_nil _ workers
  exact ⟨known.empty loop member (.inr (returned loop member)),
    fun other present => known.free other present (.inr (returned other present))⟩

/-- The payload of a job. -/
def payload (id : String) : RawJSON := .json (Enqueuer.plainJob "send" id 0 none).serialize

/-- A pool with some jobs of a type on its queue, the first one on the right, and a limit of
concurrency for the type. -/
def waitingJobs (ids : List String) (limit : ℕ) (workers : ℕ) : State where
  redis := { System.emptyState.redis with
    list := Function.update System.emptyState.redis.list (.jobs "send") (ids.map payload)
    maxConcurrency := Function.update System.emptyState.redis.maxConcurrency "send" (some limit) }
  loops := List.replicate workers { worker := .idle }

theorem initial_waitingJobs (ids : List String) (limit workers : ℕ) :
    (system "work" (System.single.pool "A") "A").initial (waitingJobs ids limit workers) := by
  refine ⟨fun loop member => ?_, fun name _ => rfl⟩
  rw [List.eq_of_mem_replicate member]

/-- A job succeeds. -/
def success (id : String) : Worker.Event :=
  .finish { after := Enqueuer.plainJob "send" id 0 none, marshals := true, error := none
            failedAt := 0, now := 0, backoff := 0 } .ok

/-- A fetch that is answered. -/
def fetch : Worker.Event := .fetch ["send"] .ok

/-- Two workers and three jobs: one worker fetches the last job after it has received the request,
and the other one acknowledges meanwhile. -/
theorem queues_drained_three_jobs :
    ∃ state, (system "work" (System.single.pool "A") "A").Reachable
        (fun state event => Answered "A" state event ∧
          Unlimited (System.single.pool "A") state event) state ∧
      (state.loops ≠ [] ∧ Returned state) ∧ state.redis.list (.jobs "send") = [] := by
  obtain ⟨state, reached, workers, returned⟩ :=
    @TransitionSystem.Reachable.exists_of_run _ _ (system "work" (System.single.pool "A") "A")
      (fun state event => Answered "A" state event ∧
        Unlimited (System.single.pool "A") state event) _
      (fun state => state.loops ≠ [] ∧ Returned state) _
      [.worker 0 fetch, .worker 1 fetch, .worker 1 (success "2"), .worker 0 (success "1"),
        .receive 0, .worker 0 fetch, .receive 1, .worker 1 fetch, .acknowledge 1,
        .worker 0 (success "3"), .worker 0 fetch, .acknowledge 0] _
      (initial_waitingJobs ["3", "2", "1"] 2 2) (by decide +kernel)
  exact ⟨state, reached, ⟨workers, returned⟩,
    (queues_drained reached workers returned).1 "send" (by decide)⟩

/-- Two workers and three jobs of a type of which only one may run: each worker acknowledges
while the other one has a job, and the call returns while a job runs and another one waits. -/
theorem returned_while_running :
    ∃ state, (system "work" (System.single.pool "A") "A").Reachable (Answered "A") state ∧
      (state.loops.length = 2 ∧ Returned state) ∧
      state.redis.list (.jobs "send") = [payload "3"] ∧
      ∃ loop ∈ state.loops, loop.worker ≠ .idle ∧ loop.worker ≠ .stopped :=
  TransitionSystem.Reachable.exists_of_run
    [.worker 0 fetch, .receive 1, .worker 1 fetch, .acknowledge 1, .worker 0 (success "1"),
      .receive 0, .worker 1 fetch, .worker 0 fetch, .acknowledge 0]
    (initial_waitingJobs ["3", "2", "1"] 1 2) (by decide +kernel)

end Drain
