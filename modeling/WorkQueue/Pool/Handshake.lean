import WorkQueue.Pool.Observer

/-! # Starting, draining and stopping a worker

A worker is two goroutines, its loop and the loop of its observer. Calls of `drain` and `stop`
talk to them over channels without a buffer: a call sends a request, waits for the answer, and
goes on from the worker to its observer. The loop of the worker takes a request only between two
jobs, and the observer only between two observations, which reach it over a channel with a
buffer. `Start` and `Stop` of a pool are called one after the other, and `Drain` at any time.

When a call of `stop` has returned, both loops are over and the status of the worker is gone,
whatever went on at the same time (`stopped_clean`).
-/

namespace Handshake

open Observer (Observation World)

/-- The size of the buffer of the observations. -/
def observerBufferSize : ℕ := 1024

/-- A job that a worker runs, as its observer is told. -/
structure Task where
  jobName : String
  jobID : String
  arguments : Args
  marshals : Bool
  deriving DecidableEq

/-- Where the loop of a worker is: to begin, waiting in its select, fetching, sending the
observation that a job has started, running its handler, sending the observation that it is
done, settling what becomes of it, sending the answer to a request to drain or to stop, or over. -/
inductive WorkerLoop where
  | unborn
  | selecting
  | fetching
  | announcing (task : Task)
  | running (task : Task)
  | concluding (task : Task) (err : Option String)
  | settling
  | reporting
  | acknowledging
  | ended
  deriving DecidableEq

/-- Where the loop of an observer is: to begin, waiting in its select, working off the channel,
sending the answer to a request to drain or to stop, or over. -/
inductive ObserverLoop where
  | unborn
  | selecting
  | draining
  | reporting
  | acknowledging
  | ended
  deriving DecidableEq

/-- Where the call that stops the worker is. It stops the loop of the worker, drains its
observer and stops that. -/
inductive StopCall where
  | before
  | sendingWorker
  | awaitingWorker
  | sendingDrain
  | awaitingDrain
  | sendingObserver
  | awaitingObserver
  | returned
  deriving DecidableEq

/-- Where a call that drains the worker is. It drains the worker and then its observer. -/
inductive DrainCall where
  | sendingWorker
  | awaitingWorker
  | sendingObserver
  | awaitingObserver
  deriving DecidableEq

/-- A worker with its observer, the observations on their way, the oldest first, and the calls
that have not returned. Before it is first started, a worker is like one that was stopped. -/
structure State where
  worker : WorkerLoop
  drained : Bool
  observer : ObserverLoop
  observations : List Observation
  world : World
  stop : StopCall
  drains : List DrainCall

/-- The steps. Check-ins come from a handler or from what it has left running. A call of `drain`
is given by its position, and the observer serves one of those or the call of `stop`. Where the
observer may write the status, the event says whether Redis executed that. -/
inductive Event where
  | start
  | beginWorker
  | beginObserver
  | callStop
  | callDrain
  | timer
  | fetchFailed
  | fetchedNothing
  | fetched (task : Task) (handled : Bool)
  | observeStarted (startedAt : Int64)
  | handlerEnds (err : Option String)
  | observeDone
  | settle
  | checkin (jobName jobID checkin : String) (checkinAt : Int64)
  | drainWorker (call : ℕ)
  | workerDrained (call : ℕ)
  | stopWorker
  | workerStopped
  | observe (executed : Bool)
  | drainObservation (executed : Bool)
  | observationsDrained (executed : Bool)
  | ticker (executed : Bool)
  | drainObserver (call : Option ℕ)
  | observerDrained (call : Option ℕ)
  | stopObserver
  | observerStopped
  deriving DecidableEq

/-- A step of an observer. If the status is not written, the hash stays as it is, and the observer
goes on as if it had been. -/
def observerStep (world : World) (event : Observer.Event) (executed : Bool) : World :=
  let next := Observer.step world event
  if executed then next else { next with hash := world.hash }

namespace State

/-- Whether the channel of observations takes another one. -/
def hasRoom (state : State) : Bool := state.observations.length < observerBufferSize

/-- The observer receives the oldest observation. -/
def receive (state : State) (executed : Bool) : Option State :=
  match state.observations with
  | [] => none
  | obv :: rest =>
      some { state with
        observations := rest, world := observerStep state.world (.observe obv) executed }

/-- Send an observation. -/
def send (state : State) (obv : Observation) : State :=
  { state with observations := state.observations ++ [obv] }

/-- A call of `drain` goes on. -/
def advance (state : State) (call : ℕ) (source target : DrainCall) : Option State :=
  if state.drains[call]? = some source then
    some { state with drains := state.drains.set call target }
  else none

end State

/-- One step. -/
def step (state : State) : Event → Option State
  | .start =>
      if state.stop = .returned then
        some { state with stop := .before, worker := .unborn, observer := .unborn }
      else none
  | .beginWorker =>
      if state.worker = .unborn then
        some { state with worker := .selecting, drained := false }
      else none
  | .beginObserver =>
      if state.observer = .unborn then some { state with observer := .selecting } else none
  | .callStop =>
      if state.stop = .before then some { state with stop := .sendingWorker } else none
  | .callDrain => some { state with drains := state.drains ++ [.sendingWorker] }
  | .timer => if state.worker = .selecting then some { state with worker := .fetching } else none
  | .fetchFailed =>
      if state.worker = .fetching then some { state with worker := .selecting } else none
  | .fetchedNothing =>
      if state.worker = .fetching then
        some { state with worker := if state.drained then .reporting else .selecting }
      else none
  | .fetched task handled =>
      if state.worker = .fetching then
        some { state with worker := if handled then .announcing task else .settling }
      else none
  | .observeStarted startedAt =>
      match state.worker with
      | .announcing task =>
          if state.hasRoom then
            some ({ state with worker := .running task }.send
              (.started task.jobName task.jobID startedAt task.arguments task.marshals))
          else none
      | _ => none
  | .handlerEnds err =>
      match state.worker with
      | .running task => some { state with worker := .concluding task err }
      | _ => none
  | .observeDone =>
      match state.worker with
      | .concluding task err =>
          if state.hasRoom then
            some ({ state with worker := .settling }.send (.done task.jobName task.jobID err))
          else none
      | _ => none
  | .settle => if state.worker = .settling then some { state with worker := .selecting } else none
  | .checkin jobName jobID checkin checkinAt =>
      if state.hasRoom then some (state.send (.checkin jobName jobID checkin checkinAt)) else none
  | .drainWorker call =>
      if state.worker = .selecting then
        ({ state with drained := true }).advance call .sendingWorker .awaitingWorker
      else none
  | .workerDrained call =>
      if state.worker = .reporting then
        ({ state with worker := .selecting, drained := false }).advance call .awaitingWorker
          .sendingObserver
      else none
  | .stopWorker =>
      if state.worker = .selecting ∧ state.stop = .sendingWorker then
        some { state with worker := .acknowledging, stop := .awaitingWorker }
      else none
  | .workerStopped =>
      if state.worker = .acknowledging ∧ state.stop = .awaitingWorker then
        some { state with worker := .ended, stop := .sendingDrain }
      else none
  | .observe executed =>
      if state.observer = .selecting then state.receive executed else none
  | .drainObservation executed =>
      if state.observer = .draining then state.receive executed else none
  | .observationsDrained executed =>
      if state.observer = .draining ∧ state.observations = [] then
        some { state with
          observer := .reporting, world := observerStep state.world .drained executed }
      else none
  | .ticker executed =>
      if state.observer = .selecting then
        some { state with world := observerStep state.world .tick executed }
      else none
  | .drainObserver (some call) =>
      if state.observer = .selecting then
        ({ state with observer := .draining }).advance call .sendingObserver .awaitingObserver
      else none
  | .drainObserver none =>
      if state.observer = .selecting ∧ state.stop = .sendingDrain then
        some { state with observer := .draining, stop := .awaitingDrain }
      else none
  | .observerDrained (some call) =>
      if state.observer = .reporting ∧ state.drains[call]? = some .awaitingObserver then
        some { state with observer := .selecting, drains := state.drains.eraseIdx call }
      else none
  | .observerDrained none =>
      if state.observer = .reporting ∧ state.stop = .awaitingDrain then
        some { state with observer := .selecting, stop := .sendingObserver }
      else none
  | .stopObserver =>
      if state.observer = .selecting ∧ state.stop = .sendingObserver then
        some { state with observer := .acknowledging, stop := .awaitingObserver }
      else none
  | .observerStopped =>
      if state.observer = .acknowledging ∧ state.stop = .awaitingObserver then
        some { state with observer := .ended, stop := .returned }
      else none

/-- A worker that has not been started, without calls, observations or a status. -/
def system : TransitionSystem State Event where
  initial state := state =
    { worker := .ended, drained := false, observer := .ended, observations := [],
      world := { hash := .empty, observer := {} }, stop := .returned, drains := [] }
  step := step

section Cases

/-- What the loop of a worker does on its own, without an observation. -/
inductive WorkerMove (drained : Bool) : WorkerLoop → Event → WorkerLoop → Prop
  | timer : WorkerMove drained .selecting .timer .fetching
  | fetchFailed : WorkerMove drained .fetching .fetchFailed .selecting
  | fetchedNothing : WorkerMove drained .fetching .fetchedNothing
      (if drained then .reporting else .selecting)
  | fetched (task : Task) (handled : Bool) : WorkerMove drained .fetching (.fetched task handled)
      (if handled then .announcing task else .settling)
  | handlerEnds (task : Task) (err : Option String) :
      WorkerMove drained (.running task) (.handlerEnds err) (.concluding task err)
  | settle : WorkerMove drained .settling .settle .selecting

/-- What a step does. -/
inductive Case (state : State) : Event → State → Prop
  | started : state.stop = .returned → Case state .start
      { state with stop := .before, worker := .unborn, observer := .unborn }
  | workerBegun : state.worker = .unborn → Case state .beginWorker
      { state with worker := .selecting, drained := false }
  | observerBegun : state.observer = .unborn → Case state .beginObserver
      { state with observer := .selecting }
  | stopCalled : state.stop = .before → Case state .callStop { state with stop := .sendingWorker }
  | drainCalled : Case state .callDrain { state with drains := state.drains ++ [.sendingWorker] }
  | worked {event : Event} {worker : WorkerLoop} :
      WorkerMove state.drained state.worker event worker →
      Case state event { state with worker := worker }
  | announced {task : Task} {startedAt : Int64} : state.worker = .announcing task →
      state.hasRoom → Case state (.observeStarted startedAt)
        ({ state with worker := .running task }.send
          (.started task.jobName task.jobID startedAt task.arguments task.marshals))
  | concluded {task : Task} {err : Option String} : state.worker = .concluding task err →
      state.hasRoom → Case state .observeDone
        ({ state with worker := .settling }.send (.done task.jobName task.jobID err))
  | checkedIn {jobName jobID checkin : String} {checkinAt : Int64} : state.hasRoom →
      Case state (.checkin jobName jobID checkin checkinAt)
        (state.send (.checkin jobName jobID checkin checkinAt))
  | workerTaken {call : ℕ} : state.worker = .selecting →
      state.drains[call]? = some .sendingWorker → Case state (.drainWorker call)
        { state with drained := true, drains := state.drains.set call .awaitingWorker }
  | workerAnswered {call : ℕ} : state.worker = .reporting →
      state.drains[call]? = some .awaitingWorker → Case state (.workerDrained call)
        { state with
          worker := .selecting, drained := false
          drains := state.drains.set call .sendingObserver }
  | workerStopping : state.worker = .selecting → state.stop = .sendingWorker →
      Case state .stopWorker { state with worker := .acknowledging, stop := .awaitingWorker }
  | workerStopped : state.worker = .acknowledging → state.stop = .awaitingWorker →
      Case state .workerStopped { state with worker := .ended, stop := .sendingDrain }
  | received {event : Event} {obv : Observation} {rest : List Observation} {executed : Bool} :
      event = .observe executed ∧ state.observer = .selecting ∨
        event = .drainObservation executed ∧ state.observer = .draining →
      state.observations = obv :: rest → Case state event
        { state with
          observations := rest, world := observerStep state.world (.observe obv) executed }
  | emptied {executed : Bool} : state.observer = .draining → state.observations = [] →
      Case state (.observationsDrained executed)
        { state with
          observer := .reporting, world := observerStep state.world .drained executed }
  | ticked {executed : Bool} : state.observer = .selecting → Case state (.ticker executed)
      { state with world := observerStep state.world .tick executed }
  | observerTaken {call : ℕ} : state.observer = .selecting →
      state.drains[call]? = some .sendingObserver → Case state (.drainObserver (some call))
        { state with
          observer := .draining, drains := state.drains.set call .awaitingObserver }
  | observerTakenByStop : state.observer = .selecting → state.stop = .sendingDrain →
      Case state (.drainObserver none)
        { state with observer := .draining, stop := .awaitingDrain }
  | observerAnswered {call : ℕ} : state.observer = .reporting →
      state.drains[call]? = some .awaitingObserver → Case state (.observerDrained (some call))
        { state with observer := .selecting, drains := state.drains.eraseIdx call }
  | observerAnsweredStop : state.observer = .reporting → state.stop = .awaitingDrain →
      Case state (.observerDrained none)
        { state with observer := .selecting, stop := .sendingObserver }
  | observerStopping : state.observer = .selecting → state.stop = .sendingObserver →
      Case state .stopObserver
        { state with observer := .acknowledging, stop := .awaitingObserver }
  | observerStopped : state.observer = .acknowledging → state.stop = .awaitingObserver →
      Case state .observerStopped { state with observer := .ended, stop := .returned }

variable {state next : State}

theorem State.advance_eq_some {call : ℕ} {source target : DrainCall}
    (advanced : state.advance call source target = some next) :
    state.drains[call]? = some source ∧
      next = { state with drains := state.drains.set call target } := by
  unfold State.advance at advanced
  split at advanced
  · exact ⟨‹_›, (Option.some.inj advanced).symm⟩
  · cases advanced

theorem State.receive_eq_some {executed : Bool} (received : state.receive executed = some next) :
    ∃ obv rest, state.observations = obv :: rest ∧ next =
      { state with
        observations := rest, world := observerStep state.world (.observe obv) executed } := by
  unfold State.receive at received
  split at received
  · cases received
  · exact ⟨_, _, ‹_›, (Option.some.inj received).symm⟩

/-- Every step is one of the cases. -/
theorem step_cases {event : Event} (stepped : step state event = some next) :
    Case state event next := by
  cases event with
  | start =>
      obtain ⟨returned, ⟨⟩⟩ := Option.ite_none_right_eq_some.mp stepped
      exact .started returned
  | beginWorker =>
      obtain ⟨unborn, ⟨⟩⟩ := Option.ite_none_right_eq_some.mp stepped
      exact .workerBegun unborn
  | beginObserver =>
      obtain ⟨unborn, ⟨⟩⟩ := Option.ite_none_right_eq_some.mp stepped
      exact .observerBegun unborn
  | callStop =>
      obtain ⟨before, ⟨⟩⟩ := Option.ite_none_right_eq_some.mp stepped
      exact .stopCalled before
  | callDrain =>
      obtain rfl := Option.some.inj stepped
      exact .drainCalled
  | timer =>
      obtain ⟨selecting, ⟨⟩⟩ := Option.ite_none_right_eq_some.mp stepped
      exact .worked (selecting ▸ .timer)
  | fetchFailed =>
      obtain ⟨fetching, ⟨⟩⟩ := Option.ite_none_right_eq_some.mp stepped
      exact .worked (fetching ▸ .fetchFailed)
  | fetchedNothing =>
      obtain ⟨fetching, ⟨⟩⟩ := Option.ite_none_right_eq_some.mp stepped
      exact .worked (fetching ▸ .fetchedNothing)
  | fetched task handled =>
      obtain ⟨fetching, ⟨⟩⟩ := Option.ite_none_right_eq_some.mp stepped
      exact .worked (fetching ▸ .fetched task handled)
  | observeStarted startedAt =>
      simp only [step] at stepped
      split at stepped
      case h_1 task announcing =>
        obtain ⟨room, rfl⟩ : state.hasRoom ∧ _ = next := by
          simpa only [Option.ite_none_right_eq_some, Option.some.injEq] using stepped
        exact .announced announcing room
      case h_2 => cases stepped
  | handlerEnds err =>
      simp only [step] at stepped
      split at stepped
      case h_1 task running =>
        obtain rfl := Option.some.inj stepped
        exact .worked (running ▸ .handlerEnds task err)
      case h_2 => cases stepped
  | observeDone =>
      simp only [step] at stepped
      split at stepped
      case h_1 task err concluding =>
        obtain ⟨room, rfl⟩ : state.hasRoom ∧ _ = next := by
          simpa only [Option.ite_none_right_eq_some, Option.some.injEq] using stepped
        exact .concluded concluding room
      case h_2 => cases stepped
  | settle =>
      obtain ⟨settling, ⟨⟩⟩ := Option.ite_none_right_eq_some.mp stepped
      exact .worked (settling ▸ .settle)
  | checkin jobName jobID checkin checkinAt =>
      obtain ⟨room, ⟨⟩⟩ := Option.ite_none_right_eq_some.mp stepped
      exact .checkedIn room
  | drainWorker call =>
      obtain ⟨selecting, advanced⟩ := Option.ite_none_right_eq_some.mp stepped
      obtain ⟨waiting, rfl⟩ := State.advance_eq_some advanced
      exact .workerTaken selecting waiting
  | workerDrained call =>
      obtain ⟨reporting, advanced⟩ := Option.ite_none_right_eq_some.mp stepped
      obtain ⟨waiting, rfl⟩ := State.advance_eq_some advanced
      exact .workerAnswered reporting waiting
  | stopWorker =>
      obtain ⟨⟨selecting, sending⟩, ⟨⟩⟩ := Option.ite_none_right_eq_some.mp stepped
      exact .workerStopping selecting sending
  | workerStopped =>
      obtain ⟨⟨acknowledging, awaiting⟩, ⟨⟩⟩ := Option.ite_none_right_eq_some.mp stepped
      exact .workerStopped acknowledging awaiting
  | observe executed =>
      obtain ⟨selecting, received⟩ := Option.ite_none_right_eq_some.mp stepped
      obtain ⟨obv, rest, oldest, rfl⟩ := State.receive_eq_some received
      exact .received (.inl ⟨rfl, selecting⟩) oldest
  | drainObservation executed =>
      obtain ⟨draining, received⟩ := Option.ite_none_right_eq_some.mp stepped
      obtain ⟨obv, rest, oldest, rfl⟩ := State.receive_eq_some received
      exact .received (.inr ⟨rfl, draining⟩) oldest
  | observationsDrained executed =>
      obtain ⟨⟨draining, empty⟩, ⟨⟩⟩ := Option.ite_none_right_eq_some.mp stepped
      exact .emptied draining empty
  | ticker executed =>
      obtain ⟨selecting, ⟨⟩⟩ := Option.ite_none_right_eq_some.mp stepped
      exact .ticked selecting
  | drainObserver call =>
      cases call with
      | none =>
          obtain ⟨⟨selecting, sending⟩, ⟨⟩⟩ := Option.ite_none_right_eq_some.mp stepped
          exact .observerTakenByStop selecting sending
      | some call =>
          obtain ⟨selecting, advanced⟩ := Option.ite_none_right_eq_some.mp stepped
          obtain ⟨waiting, rfl⟩ := State.advance_eq_some advanced
          exact .observerTaken selecting waiting
  | observerDrained call =>
      cases call with
      | none =>
          obtain ⟨⟨reporting, awaiting⟩, ⟨⟩⟩ := Option.ite_none_right_eq_some.mp stepped
          exact .observerAnsweredStop reporting awaiting
      | some call =>
          obtain ⟨⟨reporting, awaiting⟩, ⟨⟩⟩ := Option.ite_none_right_eq_some.mp stepped
          exact .observerAnswered reporting awaiting
  | stopObserver =>
      obtain ⟨⟨selecting, sending⟩, ⟨⟩⟩ := Option.ite_none_right_eq_some.mp stepped
      exact .observerStopping selecting sending
  | observerStopped =>
      obtain ⟨⟨acknowledging, awaiting⟩, ⟨⟩⟩ := Option.ite_none_right_eq_some.mp stepped
      exact .observerStopped acknowledging awaiting

end Cases

section Stages

/-- Whether the loop has not taken a request to stop. -/
def WorkerLoop.alive : WorkerLoop → Bool
  | .acknowledging | .ended => false
  | .unborn | .selecting | .fetching | .announcing _ | .running _ | .concluding _ _ | .settling
  | .reporting => true

/-- Whether the loop has not taken a request to stop. -/
def ObserverLoop.alive : ObserverLoop → Bool
  | .acknowledging | .ended => false
  | .unborn | .selecting | .draining | .reporting => true

/-- How far the loops are, by how far the call of `stop` is. -/
def Agree (worker : WorkerLoop) (observer : ObserverLoop) : StopCall → Prop
  | .before | .sendingWorker => worker.alive ∧ observer.alive
  | .awaitingWorker => worker = .acknowledging ∧ observer.alive
  | .sendingDrain | .awaitingDrain | .sendingObserver => worker = .ended ∧ observer.alive
  | .awaitingObserver => worker = .ended ∧ observer = .acknowledging
  | .returned => worker = .ended ∧ observer = .ended

variable {worker worker' : WorkerLoop} {observer observer' : ObserverLoop} {stop : StopCall}

/-- A loop of a worker that is alive may go on. -/
theorem Agree.replace_worker (agree : Agree worker observer stop) (alive : worker.alive)
    (alive' : worker'.alive) : Agree worker' observer stop := by
  cases stop with
  | before | sendingWorker => exact ⟨alive', agree.2⟩
  | awaitingWorker | sendingDrain | awaitingDrain | sendingObserver | awaitingObserver
  | returned =>
      rw [agree.1] at alive
      cases alive

/-- A loop of an observer that is alive may go on. -/
theorem Agree.replace_observer (agree : Agree worker observer stop) (alive : observer.alive)
    (alive' : observer'.alive) : Agree worker observer' stop := by
  cases stop with
  | before | sendingWorker | awaitingWorker | sendingDrain | awaitingDrain | sendingObserver =>
      exact ⟨agree.1, alive'⟩
  | awaitingObserver | returned =>
      rw [agree.2] at alive
      cases alive

theorem WorkerMove.alive {drained : Bool} {event : Event}
    (moved : WorkerMove drained worker event worker') : worker.alive ∧ worker'.alive := by
  cases moved with
  | timer | fetchFailed | handlerEnds | settle => exact ⟨rfl, rfl⟩
  | fetchedNothing => cases drained <;> exact ⟨rfl, rfl⟩
  | fetched task handled => cases handled <;> exact ⟨rfl, rfl⟩

variable {state next : State} {event : Event}

theorem Case.agree (moved : Case state event next)
    (agree : Agree state.worker state.observer state.stop) :
    Agree next.worker next.observer next.stop := by
  cases moved with
  | started => exact ⟨rfl, rfl⟩
  | workerBegun unborn => exact agree.replace_worker (unborn ▸ rfl) rfl
  | observerBegun unborn => exact agree.replace_observer (unborn ▸ rfl) rfl
  | stopCalled before =>
      rw [before] at agree
      exact agree
  | worked moved => exact agree.replace_worker moved.alive.1 moved.alive.2
  | announced announcing => exact agree.replace_worker (announcing ▸ rfl) rfl
  | concluded concluding => exact agree.replace_worker (concluding ▸ rfl) rfl
  | workerAnswered reporting => exact agree.replace_worker (reporting ▸ rfl) rfl
  | workerStopping selecting sending | workerStopped selecting sending =>
      rw [sending] at agree
      exact ⟨rfl, agree.2⟩
  | emptied draining => exact agree.replace_observer (draining ▸ rfl) rfl
  | observerTaken selecting => exact agree.replace_observer (selecting ▸ rfl) rfl
  | observerAnswered reporting => exact agree.replace_observer (reporting ▸ rfl) rfl
  | observerTakenByStop _ stopping | observerAnsweredStop _ stopping
  | observerStopping _ stopping | observerStopped _ stopping =>
      rw [stopping] at agree
      exact ⟨agree.1, rfl⟩
  | drainCalled | checkedIn | workerTaken | received | ticked => exact agree

end Stages

section Pending

variable {state next : State} {event : Event}

/-- The job that the observer will have on record once it has received everything. -/
def State.pending (state : State) : Option Observer.Started :=
  state.observations.foldl Observer.observed state.world.observer.currentStartedObservation

/-- Whether a job has been announced and not concluded. -/
def WorkerLoop.busy : WorkerLoop → Bool
  | .running _ | .concluding _ _ => true
  | .unborn | .selecting | .fetching | .announcing _ | .settling | .reporting | .acknowledging
  | .ended => false

theorem State.pending_send (state : State) (obv : Observation) :
    (state.send obv).pending = Observer.observed state.pending obv := by
  rw [pending, send, List.foldl_append]
  rfl

theorem observer_observerStep (world : World) (event : Observer.Event) (executed : Bool) :
    (observerStep world event executed).observer = (Observer.step world event).observer := by
  unfold observerStep
  cases executed <;> rfl

/-- A check-in does not put a job on record. -/
theorem observed_checkin (jobName jobID checkin : String) (checkinAt : Int64) :
    Observer.observed none (.checkin jobName jobID checkin checkinAt) = none := rfl

/-- A move of the loop leaves a job as it is, announced or not. -/
theorem WorkerMove.busy {drained : Bool} {worker worker' : WorkerLoop}
    (moved : WorkerMove drained worker event worker') : worker'.busy = worker.busy := by
  cases moved with
  | timer | fetchFailed | handlerEnds | settle => rfl
  | fetchedNothing => cases drained <;> rfl
  | fetched task handled => cases handled <;> rfl

/-- No job is on record, now or later, unless one has been announced and not concluded. -/
theorem Case.pending (moved : Case state event next)
    (agree : Agree state.worker state.observer state.stop)
    (idle : state.worker.busy = false → state.pending = none)
    (idle' : next.worker.busy = false) : next.pending = none := by
  cases moved with
  | started returned =>
      rw [returned] at agree
      exact idle (agree.1 ▸ rfl)
  | workerBegun unborn => exact idle (unborn ▸ rfl)
  | worked moved => exact idle (moved.busy ▸ idle')
  | announced => cases idle'
  | concluded =>
      rw [State.pending_send]
      rfl
  | checkedIn =>
      have nothing : state.pending = none := idle idle'
      rw [State.pending_send, nothing, observed_checkin]
  | workerAnswered reporting => exact idle (reporting ▸ rfl)
  | workerStopping selecting => exact idle (selecting ▸ rfl)
  | workerStopped acknowledging => exact idle (acknowledging ▸ rfl)
  | received _ oldest =>
      have nothing : state.pending = none := idle idle'
      rw [State.pending, oldest, List.foldl_cons] at nothing
      rw [State.pending, observer_observerStep, Observer.current_step]
      exact nothing
  | emptied | ticked =>
      rw [State.pending, observer_observerStep, Observer.current_step]
      exact idle idle'
  | observerBegun | stopCalled | drainCalled | workerTaken | observerTaken | observerTakenByStop
  | observerAnswered | observerAnsweredStop | observerStopping | observerStopped =>
      exact idle idle'

end Pending

section Quiet

variable {state next : State} {event : Event}

/-- Whether an observation is a check-in. -/
def isCheckin : Observation → Bool
  | .checkin _ _ _ _ => true
  | .started _ _ _ _ _ | .done _ _ _ => false

/-- No job is on record, the status is gone, and only check-ins are on their way. -/
structure State.Quiet (state : State) : Prop where
  current : state.world.observer.currentStartedObservation = none
  hash : state.world.hash = .empty
  checkins : ∀ obv ∈ state.observations, isCheckin obv

/-- Whether the observer has been drained for the call of `stop`. -/
def DrainedFor (observer : ObserverLoop) : StopCall → Prop
  | .awaitingDrain => observer = .reporting
  | .sendingObserver | .awaitingObserver | .returned => True
  | .before | .sendingWorker | .awaitingWorker | .sendingDrain => False

variable {observer observer' : ObserverLoop} {stop : StopCall}

/-- Only an observer that is about to answer can unsettle the call by going on. -/
theorem DrainedFor.replace (drained : DrainedFor observer stop) (other : observer ≠ .reporting) :
    DrainedFor observer' stop := by
  cases stop with
  | before | sendingWorker | awaitingWorker | sendingDrain => exact drained.elim
  | awaitingDrain => exact absurd drained other
  | sendingObserver | awaitingObserver | returned => trivial

theorem Agree.worker_eq {worker : WorkerLoop} (agree : Agree worker observer stop)
    (drained : DrainedFor observer' stop) : worker = .ended := by
  cases stop with
  | before | sendingWorker | awaitingWorker | sendingDrain => exact drained.elim
  | awaitingDrain | sendingObserver | awaitingObserver | returned => exact agree.1

/-- A step of an observer without a job on record writes nothing but that. -/
theorem hash_observerStep {world : World} {event : Observer.Event}
    (current : (Observer.step world event).observer.currentStartedObservation = none)
    (hash : world.hash = .empty) (executed : Bool) :
    (observerStep world event executed).hash = .empty := by
  cases executed with
  | false => exact hash
  | true =>
      cases written : Observer.writes world event with
      | false => exact (Observer.hash_of_not_writes written).trans hash
      | true =>
          refine (Observer.hash_of_writes written).trans ?_
          rw [current]
          rfl

/-- A step of the observer at rest. -/
theorem State.Quiet.observe {event : Observer.Event} (quiet : state.Quiet)
    (current : (Observer.step state.world event).observer.currentStartedObservation = none)
    (executed : Bool) {rest : List Observation} (checkins : ∀ obv ∈ rest, isCheckin obv) :
    { state with
      observations := rest, world := observerStep state.world event executed }.Quiet where
  current := (observer_observerStep _ _ _).symm ▸ current
  hash := hash_observerStep current quiet.hash executed
  checkins := checkins

theorem observed_of_isCheckin {obv : Observation} (checkin : isCheckin obv) :
    Observer.observed none obv = none := by
  cases obv with
  | checkin => rfl
  | started | done => cases checkin

/-- What was drained stays so, and the observer settles with its last write. -/
theorem Case.quiet (moved : Case state event next) (written : event ≠ .observationsDrained false)
    (agree : Agree state.worker state.observer state.stop)
    (idle : state.worker.busy = false → state.pending = none)
    (quiet : DrainedFor state.observer state.stop → state.Quiet)
    (drained : DrainedFor next.observer next.stop) : next.Quiet := by
  cases moved with
  | started | stopCalled | workerStopping | workerStopped => exact drained.elim
  | observerTakenByStop => cases drained
  | drainCalled | workerTaken => exact { quiet drained with }
  | checkedIn =>
      refine { quiet drained with checkins := ?_ }
      intro obv sent
      obtain old | new := List.mem_append.mp sent
      · exact (quiet drained).checkins obv old
      · rw [List.mem_singleton.mp new]
        rfl
  | workerBegun there | announced there | concluded there | workerAnswered there =>
      cases there.symm.trans (agree.worker_eq drained)
  | worked moved =>
      have alive := moved.alive.1
      rw [agree.worker_eq drained] at alive
      cases alive
  | received _ oldest =>
      have before : state.Quiet := quiet drained
      have checkins := before.checkins
      rw [oldest] at checkins
      apply before.observe
      · rw [Observer.current_step, before.current]
        exact observed_of_isCheckin (checkins _ List.mem_cons_self)
      · intro obv mem
        exact checkins obv (List.mem_cons_of_mem _ mem)
  | ticked =>
      have before : state.Quiet := quiet drained
      apply before.observe _ _ before.checkins
      rw [Observer.current_step, before.current]
  | @emptied executed draining empty =>
      cases executed with
      | false => exact absurd rfl written
      | true =>
          have nothing : state.pending = none := idle (agree.worker_eq drained ▸ rfl)
          rw [State.pending, empty, List.foldl_nil] at nothing
          refine ⟨nothing, ?_, ?_⟩
          · exact congrArg (Observer.writeStatus state.world.hash) nothing
          · rw [empty]
            exact List.forall_mem_nil _
  | observerBegun | observerTaken | observerAnswered =>
      exact { quiet (drained.replace nofun) with }
  | observerAnsweredStop reporting awaiting =>
      rw [reporting, awaiting] at quiet
      exact { quiet rfl with }
  | observerStopping _ stopping | observerStopped _ stopping =>
      rw [stopping] at quiet
      exact { quiet trivial with }

end Quiet

section Stopped

variable {state : State}

/-- The stages of the call and of the loops agree, and a job is on record only between its
observations. -/
structure Consistent (state : State) : Prop where
  agree : Agree state.worker state.observer state.stop
  idle : state.worker.busy = false → state.pending = none

theorem Consistent.step {next : State} {event : Event} (consistent : Consistent state)
    (moved : Case state event next) : Consistent next where
  agree := moved.agree consistent.agree
  idle := moved.pending consistent.agree consistent.idle

theorem consistent_of_reachable {scope : State → Event → Prop}
    (reachable : system.Reachable scope state) : Consistent state := by
  apply reachable.invariant Consistent
  · intro state start
    rw [start]
    exact ⟨⟨rfl, rfl⟩, fun _ => rfl⟩
  · intro source event target _ consistent _ stepped
    exact consistent.step (step_cases stepped)

/-- Redis executes the write that ends a drain of the observer. -/
def DrainsWritten (_ : State) (event : Event) : Prop := event ≠ .observationsDrained false

instance (state : State) (event : Event) : Decidable (DrainsWritten state event) :=
  inferInstanceAs (Decidable (_ ≠ _))

theorem quiet_of_drained (reachable : system.Reachable DrainsWritten state)
    (drained : DrainedFor state.observer state.stop) : state.Quiet := by
  revert drained
  apply reachable.invariant fun state => DrainedFor state.observer state.stop → state.Quiet
  · intro state start _
    rw [start]
    exact ⟨rfl, rfl, List.forall_mem_nil _⟩
  · intro source event target reached quiet written stepped
    have consistent := consistent_of_reachable reached
    exact (step_cases stepped).quiet written consistent.agree consistent.idle quiet

/-- Whenever no call of `stop` is to come or under way, both loops are over, no job is on record,
the status is gone from Redis, and only check-ins of handlers that are no longer waited for are
left. Writes may fail, except those that end a drain. -/
theorem stopped_clean (reachable : system.Reachable DrainsWritten state)
    (returned : state.stop = .returned) :
    state.worker = .ended ∧ state.observer = .ended ∧
      state.world.observer.currentStartedObservation = none ∧ state.world.hash = .empty ∧
      ∀ obv ∈ state.observations, isCheckin obv := by
  have agree := (consistent_of_reachable reachable).agree
  have quiet : state.Quiet := by
    apply quiet_of_drained reachable
    rw [returned]
    trivial
  rw [returned] at agree
  exact ⟨agree.1, agree.2, quiet.current, quiet.hash, quiet.checkins⟩

/-- A worker runs a job while it is told to stop, and a check-in arrives after the last write. -/
theorem stopped_clean_late_checkin : ∃ state, (system.Reachable DrainsWritten state ∧
    state.stop = .returned ∧ state.observations ≠ []) ∧ state.world.hash = .empty := by
  let task : Task := { jobName := "export", jobID := "1", arguments := none, marshals := true }
  obtain ⟨state, reachable, returned, left⟩ : ∃ state, system.Reachable DrainsWritten state ∧
      state.stop = .returned ∧ state.observations ≠ [] :=
    TransitionSystem.Reachable.exists_of_run
      [.start, .beginWorker, .beginObserver, .timer, .fetched task true, .observeStarted 5,
        .observe true, .callStop, .handlerEnds none, .observeDone, .settle, .stopWorker,
        .workerStopped, .drainObserver none, .drainObservation false, .observationsDrained true,
        .checkin "export" "1" "late" 9, .observerDrained none, .stopObserver, .observerStopped]
      rfl (by decide +kernel)
  exact ⟨state, ⟨reachable, returned, left⟩, (stopped_clean reachable returned).2.2.2.1⟩

end Stopped

end Handshake
