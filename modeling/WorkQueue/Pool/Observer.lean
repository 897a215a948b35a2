import WorkQueue.Foundation.FinMap
import WorkQueue.Foundation.Transition
import WorkQueue.Redis.Keys

/-! # Observers

Every worker has an observer that is told when a job starts, checks in and is done. It keeps
the job that has started last and writes it to a hash of the worker now and then: after the
first observation, at a tick if something was observed since, and when it is drained. A write
sets fields of the hash, and the hash is deleted when no job is running.
-/

/-- The hash of a worker. -/
abbrev StatusHash := FinMap String String

/-- The digits of an integer. -/
def formatInt (value : Int64) : String := String.ofList (intDigits value.toInt)

namespace Observer

/-- The observation of a job that has started, with its last check-in, and whether its
arguments can be encoded. -/
structure Started where
  jobName : String
  jobID : String
  startedAt : Int64
  arguments : Args
  marshals : Bool
  checkin : String := ""
  checkinAt : Int64 := 0
  deriving DecidableEq

/-- What an observer is told. -/
inductive Observation where
  | started (jobName jobID : String) (startedAt : Int64) (arguments : Args) (marshals : Bool)
  | done (jobName jobID : String) (err : Option String)
  | checkin (jobName jobID checkin : String) (checkinAt : Int64)
  deriving DecidableEq

/-- The job that is running as far as the observer knows, the number of observations, and
their number when the status was written last. -/
structure State where
  currentStartedObservation : Option Started := none
  version : Int64 := 0
  lastWrittenVersion : Int64 := 0
  deriving DecidableEq

/-- The text of some arguments, empty if there are none. -/
def argumentsText : Args → String
  | none | some [] => ""
  | some fields => String.ofList (Json.obj fields).text

/-- The encoded arguments of an observation. There is nothing to encode if there are none. -/
def Started.argsJSON (obv : Started) : Option String :=
  if obv.arguments.getD [] = [] ∨ obv.marshals then some (argumentsText obv.arguments) else none

theorem Started.eq_argumentsText {obv : Started} {argsJSON : String}
    (encodes : obv.argsJSON = some argsJSON) : argsJSON = argumentsText obv.arguments := by
  unfold Started.argsJSON at encodes
  split at encodes
  · exact (Option.some.inj encodes).symm
  · cases encodes

/-- Write the status. If the arguments cannot be encoded, nothing is written. -/
def writeStatus (hash : StatusHash) : Option Started → StatusHash
  | none => .empty
  | some obv =>
      match obv.argsJSON with
      | none => hash
      | some argsJSON =>
          let written := (((hash.set "job_name" obv.jobName).set "job_id" obv.jobID).set
            "started_at" (formatInt obv.startedAt)).set "args" argsJSON
          if obv.checkin ≠ "" ∧ 0 < obv.checkinAt then
            (written.set "checkin" obv.checkin).set "checkin_at" (formatInt obv.checkinAt)
          else written

/-- The observation has a check-in that is written. -/
def Started.Checked (obv : Started) : Prop := obv.checkin ≠ "" ∧ 0 < obv.checkinAt

instance (obv : Started) : Decidable obv.Checked :=
  inferInstanceAs (Decidable (obv.checkin ≠ "" ∧ 0 < obv.checkinAt))

/-- The hash after a write. -/
structure Written (before after : StatusHash) (obv : Started) (argsJSON : String) : Prop where
  jobName : after.get "job_name" = some obv.jobName
  jobID : after.get "job_id" = some obv.jobID
  startedAt : after.get "started_at" = some (formatInt obv.startedAt)
  args : after.get "args" = some argsJSON
  checkin : after.get "checkin" = if obv.Checked then some obv.checkin else before.get "checkin"
  checkinAt : after.get "checkin_at" =
    if obv.Checked then some (formatInt obv.checkinAt) else before.get "checkin_at"

theorem written_writeStatus (hash : StatusHash) {obv : Started} {argsJSON : String}
    (encodes : obv.argsJSON = some argsJSON) :
    Written hash (writeStatus hash (some obv)) obv argsJSON := by
  by_cases checked : obv.checkin ≠ "" ∧ 0 < obv.checkinAt
  · constructor <;> simp [writeStatus, encodes, checked, Started.Checked]
  · constructor <;> simp [writeStatus, encodes, checked, Started.Checked]

/-- The current job after an observation. A check-in of another job is ignored. -/
def observed (current : Option Started) : Observation → Option Started
  | .started jobName jobID startedAt arguments marshals =>
      some { jobName, jobID, startedAt, arguments, marshals }
  | .done _ _ _ => none
  | .checkin _ jobID checkin checkinAt =>
      current.map fun obv => if jobID = obv.jobID then { obv with checkin, checkinAt } else obv

/-- The hash and the state of an observer. -/
structure World where
  hash : StatusHash
  observer : State

/-- Write the current job to the hash. -/
def World.write (world : World) : World :=
  { world with hash := writeStatus world.hash world.observer.currentStartedObservation }

/-- The written version is the current one. -/
def World.recorded (world : World) : World :=
  { world with observer := { world.observer with lastWrittenVersion := world.observer.version } }

/-- Process an observation. The first one is written at once. -/
def process (world : World) (obv : Observation) : World :=
  let next : World :=
    { world with
      observer := { world.observer with
        currentStartedObservation := observed world.observer.currentStartedObservation obv
        version := world.observer.version + 1 } }
  if next.observer.version = 1 then next.write.recorded else next

/-- What happens to an observer: it receives an observation, its ticker ticks, or it has
received everything and is drained. -/
inductive Event where
  | observe (obv : Observation)
  | tick
  | drained
  deriving DecidableEq

/-- One step of an observer. -/
def step (world : World) : Event → World
  | .observe obv => process world obv
  | .tick =>
      if world.observer.lastWrittenVersion ≠ world.observer.version then world.write.recorded
      else world
  | .drained => world.write

/-- Whether a step writes the status. -/
def writes (world : World) : Event → Bool
  | .observe _ => world.observer.version + 1 = 1
  | .tick => world.observer.lastWrittenVersion ≠ world.observer.version
  | .drained => true

/-- An observer starts without observations and without a hash. -/
def system : TransitionSystem World Event where
  initial world := world = { hash := .empty, observer := {} }
  step world event := some (step world event)

/-- What an observer has received, the last observation first. -/
def remember (history : List Observation) (_ : World) (event : Event) (_ : World) :
    List Observation :=
  match event with
  | .observe obv => obv :: history
  | _ => history

/-- The current job after a step. -/
theorem current_step (world : World) (event : Event) :
    (step world event).observer.currentStartedObservation =
      match event with
      | .observe obv => observed world.observer.currentStartedObservation obv
      | _ => world.observer.currentStartedObservation := by
  cases event with
  | observe obv =>
      simp only [step, process]
      split <;> rfl
  | tick =>
      simp only [step]
      split <;> rfl
  | drained => rfl

/-- The hash after a step that writes. -/
theorem hash_of_writes {world : World} {event : Event} (written : writes world event) :
    (step world event).hash =
      writeStatus world.hash (step world event).observer.currentStartedObservation := by
  cases event with
  | observe obv =>
      have first : world.observer.version + 1 = 1 := of_decide_eq_true written
      simp only [step, process, first, ↓reduceIte]
      rfl
  | tick =>
      have behind : world.observer.lastWrittenVersion ≠ world.observer.version :=
        of_decide_eq_true written
      simp only [step, behind, ne_eq, not_false_eq_true, ↓reduceIte]
      rfl
  | drained => rfl

/-- The hash after a step that does not write. -/
theorem hash_of_not_writes {world : World} {event : Event} (silent : writes world event = false) :
    (step world event).hash = world.hash := by
  cases event with
  | observe obv =>
      have later : ¬ world.observer.version + 1 = 1 := of_decide_eq_false silent
      simp only [step, process, later, ↓reduceIte]
  | tick =>
      have same : ¬ world.observer.lastWrittenVersion ≠ world.observer.version :=
        of_decide_eq_false silent
      simp only [step, same, ↓reduceIte]
  | drained => cases silent

end Observer
