import WorkQueue.System

/-! # The periodic enqueuer

Every pool has an enqueuer for its periodic jobs. It wakes up now and then, reads when any
pool has enqueued last, and if that is long enough ago it reads the clock and adds the
occurrences of its jobs within the horizon to the scheduled jobs, one command at a time.
In the end it records the time it has read. An occurrence has the same bytes whoever adds
it, so that adding it twice has no effect as long as it is scheduled.

`Periodic.system` interleaves these commands with all steps of the system, under a common
clock. An occurrence is added as a job that is enqueued for a time, and so every run is a
run of the system itself (`Periodic.reachable_base`).
-/

/-- A periodic job. -/
structure PeriodicJob where
  jobName : String
  spec : String
  deriving DecidableEq

/-- What a spec is parsed to: the next occurrence after a time, in seconds. -/
abbrev Schedules := String → Int → Int

namespace Periodic

/-- How long an enqueuer sleeps at least, in seconds. -/
def sleep : Int64 := 120

/-- The time that is added to the sleep at most, in seconds. -/
def jitter : Int64 := 30

/-- How far ahead occurrences are scheduled, in seconds. -/
def horizon : Int := 240

/-- The identifier of an occurrence. -/
def makeUniquePeriodicID (name spec : String) (epoch : Int64) : String :=
  "periodic:" ++ name ++ ":" ++ spec ++ ":" ++ String.ofList (intDigits epoch.toInt)

/-- The command that adds an occurrence to the scheduled jobs. The job claims to be enqueued
at the time of the occurrence, which makes its bytes predictable. -/
def occurrence (name spec : String) (epoch : Int64) : Enqueuer.Call :=
  .enqueueAt name (makeUniquePeriodicID name spec epoch) epoch none epoch

/-- The bytes of an occurrence. -/
def payload (name spec : String) (epoch : Int64) : RawJSON :=
  .json (Enqueuer.plainJob name (makeUniquePeriodicID name spec epoch) epoch none).serialize

/-- The local state of an enqueuer: asleep, about to enqueue, about to add the occurrence of
a job at a time, or about to record the time it has read. -/
inductive State where
  | idle
  | due
  | enqueuing (now : Int64) (job : PeriodicJob) (rest : List PeriodicJob) (t : Int)
  | finishing (now : Int64)
  deriving DecidableEq

/-- Whether an enqueuer is asleep. -/
def State.isIdle : State → Bool
  | .idle => true
  | _ => false

/-- Continue with the next occurrence of a job, or with the first one of the next job that has
one within the horizon. -/
def proceed (schedules : Schedules) (now : Int64) : PeriodicJob → List PeriodicJob → Int → State
  | job, [], t =>
      if t < now.toInt + horizon then .enqueuing now job [] t else .finishing now
  | job, other :: rest, t =>
      if t < now.toInt + horizon then .enqueuing now job (other :: rest) t
      else proceed schedules now other rest (schedules other.spec now.toInt)

/-- Begin with the first occurrence of the first job that has one within the horizon. -/
def begin (schedules : Schedules) (now : Int64) : List PeriodicJob → State
  | [] => .finishing now
  | job :: rest => proceed schedules now job rest (schedules job.spec now.toInt)

/-- Whether jobs should be enqueued: nothing is recorded, or it lies back some time. The sleep
is divided by a minute and compared with seconds. -/
def shouldEnqueue (lastEnqueue : Option Int64) (now : Int64) : Bool :=
  match lastEnqueue with
  | none => true
  | some last => last < now - sleep / 60

/-- The commands of an enqueuer. If the time of the last enqueueing cannot be read, it
enqueues. -/
inductive Event where
  | check (reply : Reply)
  | begin
  | zadd (reply : Reply)
  | finish (reply : Reply)
  deriving DecidableEq

/-- One step of an enqueuer with the time that is recorded and the clock. It may add an
occurrence and record a time. -/
def step (schedules : Schedules) (jobs : List PeriodicJob) (last : Option Int64)
    (clock : Int64) : State → Event → Option (Option Enqueuer.Call × Option Int64 × State)
  | .idle, .check reply =>
      if reply = .ok ∧ shouldEnqueue last clock = false then some (none, last, .idle)
      else some (none, last, .due)
  | .due, .begin => some (none, last, Periodic.begin schedules clock jobs)
  | .enqueuing now job rest t, .zadd reply =>
      some (if reply = .failed then none
          else some (occurrence job.jobName job.spec (Int64.ofInt t)),
        last, if reply = .ok then proceed schedules now job rest (schedules job.spec t) else .idle)
  | .finishing now, .finish reply =>
      some (none, if reply = .failed then last else some now, .idle)
  | _, _ => none

/-- What a step of an enqueuer can do. -/
inductive Case (schedules : Schedules) (jobs : List PeriodicJob) (last : Option Int64)
    (clock : Int64) : State → Event → Option Enqueuer.Call → Option Int64 → State → Prop
  | skipped : shouldEnqueue last clock = false →
      Case schedules jobs last clock .idle (.check .ok) none last .idle
  | woken {reply : Reply} : reply ≠ .ok ∨ shouldEnqueue last clock = true →
      Case schedules jobs last clock .idle (.check reply) none last .due
  | begun : Case schedules jobs last clock .due .begin none last (begin schedules clock jobs)
  | added {now : Int64} {job : PeriodicJob} {rest : List PeriodicJob} {t : Int} :
      Case schedules jobs last clock (.enqueuing now job rest t) (.zadd .ok)
        (some (occurrence job.jobName job.spec (Int64.ofInt t))) last
        (proceed schedules now job rest (schedules job.spec t))
  | unanswered {now : Int64} {job : PeriodicJob} {rest : List PeriodicJob} {t : Int} :
      Case schedules jobs last clock (.enqueuing now job rest t) (.zadd .lost)
        (some (occurrence job.jobName job.spec (Int64.ofInt t))) last .idle
  | failed {now : Int64} {job : PeriodicJob} {rest : List PeriodicJob} {t : Int} :
      Case schedules jobs last clock (.enqueuing now job rest t) (.zadd .failed) none last .idle
  | recorded {now : Int64} {reply : Reply} : reply ≠ .failed →
      Case schedules jobs last clock (.finishing now) (.finish reply) none (some now) .idle
  | unrecorded {now : Int64} :
      Case schedules jobs last clock (.finishing now) (.finish .failed) none last .idle

theorem step_cases {schedules : Schedules} {jobs : List PeriodicJob} {last last' : Option Int64}
    {clock : Int64} {state state' : State} {event : Event} {call : Option Enqueuer.Call}
    (stepped : step schedules jobs last clock state event = some (call, last', state')) :
    Case schedules jobs last clock state event call last' state' := by
  cases state with
  | idle =>
      cases event with
      | check reply =>
          simp only [step] at stepped
          split at stepped
          · next skip =>
              cases stepped
              obtain ⟨rfl, recent⟩ := skip
              exact .skipped recent
          · next wake =>
              cases stepped
              refine .woken ?_
              by_cases answered : reply = .ok
              · refine .inr (Bool.not_eq_false _ ▸ fun recent => wake ⟨answered, recent⟩)
              · exact .inl answered
      | _ => cases stepped
  | due =>
      cases event with
      | begin =>
          cases stepped
          exact .begun
      | _ => cases stepped
  | enqueuing now job rest t =>
      cases event with
      | zadd reply =>
          cases reply <;> cases stepped
          · exact .added
          · exact .unanswered
          · exact .failed
      | _ => cases stepped
  | finishing now =>
      cases event with
      | finish reply =>
          cases reply <;> cases stepped
          · exact .recorded (by decide)
          · exact .recorded (by decide)
          · exact .unrecorded
      | _ => cases stepped

end Periodic

/-- A deployment with the periodic jobs that each pool registers, and their schedules. -/
structure PeriodicDeployment extends Deployment where
  periodicJobs : PoolID → List PeriodicJob
  schedules : Schedules

/-- The stages in which the periodic enqueuer of a pool runs. -/
def Phase.periodicAlive (phase : Phase) : Bool := phase.reaperAlive || phase = .stoppingPeriodic

namespace Periodic

/-- The system with a clock, the time of the last enqueueing, and the enqueuers of the pools. -/
structure Whole where
  base : System.State
  clock : Int64
  last : Option Int64
  enqueuers : PoolID → State

/-- The events: those of the system, the passing of time, and the commands of the enqueuers. -/
inductive WholeEvent where
  | base (event : System.Event)
  | tick (now : Int64)
  | periodic (id : PoolID) (event : Event)
  deriving DecidableEq

/-- A pool that stops waits for its periodic enqueuer. -/
def mayStep (state : Whole) : System.Event → Bool
  | .pool id .advance =>
      (state.base.pools id).phase ≠ .stoppingPeriodic || (state.enqueuers id).isIdle
  | _ => true

/-- One step. -/
def wholeStep (deployment : PeriodicDeployment) (state : Whole) : WholeEvent → Option Whole
  | .base event =>
      if mayStep state event then
        (System.step deployment.toDeployment state.base event).map fun base =>
          { state with base := base }
      else none
  | .tick now => if state.clock ≤ now then some { state with clock := now } else none
  | .periodic id event =>
      if (state.base.pools id).phase.periodicAlive then
        (step deployment.schedules (deployment.periodicJobs id) state.last state.clock
          (state.enqueuers id) event).map fun (call, last, enqueuer) =>
            { base := { state.base with
                redis := match call with
                  | none => state.base.redis
                  | some call => Enqueuer.execute deployment.ns state.base.redis call }
              clock := state.clock
              last := last
              enqueuers := Function.update state.enqueuers id enqueuer }
      else none

/-- The system starts with a clock that does not show a negative time, nothing recorded and
the enqueuers asleep. -/
structure Begun (state : Whole) : Prop where
  base : System.Initial state.base
  clock : 0 ≤ state.clock.toInt
  last : state.last = none
  enqueuers : ∀ id, state.enqueuers id = .idle

/-- The transition system. -/
def system (deployment : PeriodicDeployment) : TransitionSystem Whole WholeEvent where
  initial := Begun
  step := wholeStep deployment

section StepCases

variable {deployment : PeriodicDeployment} {state next : Whole}

/-- What a step can do. -/
inductive WholeCase (deployment : PeriodicDeployment) (state : Whole) : WholeEvent → Whole → Prop
  | base {event : System.Event} {base : System.State} : mayStep state event →
      System.step deployment.toDeployment state.base event = some base →
      WholeCase deployment state (.base event) { state with base := base }
  | passed {now : Int64} : state.clock ≤ now →
      WholeCase deployment state (.tick now) { state with clock := now }
  | periodic {id : PoolID} {event : Event} {call : Option Enqueuer.Call} {last : Option Int64}
      {enqueuer : State} : (state.base.pools id).phase.periodicAlive →
      Case deployment.schedules (deployment.periodicJobs id) state.last state.clock
        (state.enqueuers id) event call last enqueuer →
      WholeCase deployment state (.periodic id event)
        { base := { state.base with
            redis := match call with
              | none => state.base.redis
              | some call => Enqueuer.execute deployment.ns state.base.redis call }
          clock := state.clock
          last := last
          enqueuers := Function.update state.enqueuers id enqueuer }

theorem wholeStep_cases {event : WholeEvent}
    (stepped : wholeStep deployment state event = some next) :
    WholeCase deployment state event next := by
  cases event with
  | base event =>
      obtain ⟨may, stepped⟩ := Option.ite_none_right_eq_some.mp stepped
      obtain ⟨base, moved, rfl⟩ := Option.map_eq_some_iff.mp stepped
      exact .base may moved
  | tick now =>
      obtain ⟨passed, stepped⟩ := Option.ite_none_right_eq_some.mp stepped
      cases stepped
      exact .passed passed
  | periodic id event =>
      obtain ⟨alive, stepped⟩ := Option.ite_none_right_eq_some.mp stepped
      obtain ⟨⟨call, last, enqueuer⟩, moved, rfl⟩ := Option.map_eq_some_iff.mp stepped
      exact .periodic alive (step_cases moved)

/-- Every run is a run of the system without periodic enqueuers, in which an enqueuer adds
the occurrences. -/
theorem reachable_base {scope : Whole → WholeEvent → Prop}
    (reached : (system deployment).Reachable scope state) :
    (System.system deployment.toDeployment).Reachable (fun _ _ => True) state.base := by
  refine reached.invariant
    (fun state => (System.system deployment.toDeployment).Reachable (fun _ _ => True) state.base)
    ?_ ?_
  · intro start begun
    exact .initial begun.base
  intro source event target _ before _ stepped
  cases wholeStep_cases stepped with
  | base _ moved => exact .step before trivial moved
  | passed => exact before
  | @periodic _ _ call _ _ alive moved =>
      cases call with
      | none => exact before
      | some call =>
          have executed : (System.system deployment.toDeployment).step source.base
            (.enqueuer call) = some _ := rfl
          exact .step before trivial executed

end StepCases

end Periodic
