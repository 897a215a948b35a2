import WorkQueue.Delivery.Detour
import WorkQueue.Unique.Updates

/-! # What a retry runs

A job that fails with retries left goes through the retry set back to its queue. The worker
that fetches it there looks its unique key up again and runs whatever job it finds under the
key. As long as it finds nothing or the placeholder, the handler gets the job that failed,
with its arguments and its count of failures (`System.retry_runs_failed_job`).

A call with a key map that comes in between stores its own job under the key. Then the retry
runs that job, and the job that failed is gone.
-/

/-- What a requeuer's script reads of the encoding of a job and writes for it. -/
theorem Job.requeuedBytes_eq {job : Job} {now : Int64} {lua : Json} {pushed : RawJSON}
    (decoded : Cjson.decode (.json job.serialize) = some lua)
    (encoded : Cjson.encode (Store.requeuedJob now lua) = some pushed) :
    job.requeuedBytes now = pushed := by
  obtain ⟨_, same, -, rfl⟩ := Cjson.of_decode decoded
  obtain rfl := RawJSON.json.inj same
  exact (Cjson.of_encode encoded).2

namespace Worker

/-- A worker runs what its payload decodes to, unless it has found an updated job under the
key of a job that has never failed. -/
def RunsPayload : State → Prop
  | .fetched job => newJob job.rawJSON job.dequeuedFrom job.inProgQueue = some job
  | .gotUnique job value => newJob job.rawJSON job.dequeuedFrom job.inProgQueue = some job ∧
      (job.fails ≠ 0 → value = .placeholder)
  | .running handed raw => ∃ job, newJob raw job.dequeuedFrom job.inProgQueue = some job ∧
      (job.fails ≠ 0 → handed = job)
  | _ => True

/-- A worker that looks the key of a failed job up finds nothing or the placeholder. -/
def Unclaimed (ns : String) (redis : Store) (worker : State) : Event → Prop
  | .getUnique _ => ∀ job ∈ worker.job?, job.fails ≠ 0 →
      redis.unique (uniqueKey ns job.toJob) = none ∨
        redis.unique (uniqueKey ns job.toJob) = some .placeholder
  | _ => True

instance (ns : String) (redis : Store) (worker : State) :
    (event : Event) → Decidable (Unclaimed ns redis worker event)
  | .getUnique _ => inferInstanceAs (Decidable (∀ job ∈ worker.job?, _ → _))
  | .fetch _ _ | .delUnique _ | .finish _ _ | .stop => .isTrue trivial

theorem faithful_received (raw : RawJSON) (source target : ListKey) :
    RunsPayload (received (some (some (raw, source, target)))) := by
  rw [received_some]
  cases decoded : newJob raw source target with
  | none => trivial
  | some job =>
      obtain ⟨same, dequeuedFrom, inProgQueue, -⟩ := newJob_eq_some decoded
      have again : newJob job.rawJSON job.dequeuedFrom job.inProgQueue = some job := by
        rw [same, dequeuedFrom, inProgQueue]
        exact decoded
      dsimp only
      split
      · exact again
      · exact ⟨job, again, fun _ => rfl⟩

theorem RunsPayload.step {ns : String} {config : PoolConfig} {id : PoolID} {redis next : Store}
    {worker worker' : State} {event : Event} (faithful : RunsPayload worker)
    (unclaimed : Unclaimed ns redis worker event)
    (moved : Case ns config id redis worker event next worker') : RunsPayload worker' := by
  cases moved with
  | taken =>
      split
      · exact faithful_received _ _ _
      · trivial
  | @got job value found =>
      refine ⟨faithful, fun failed => ?_⟩
      rcases unclaimed job rfl failed with nothing | placeholder
      · rw [found] at nothing
        cases nothing
      · exact Option.some.inj (found.symm.trans placeholder)
  | @missed job reply absent => exact ⟨job, faithful, fun _ => rfl⟩
  | @deleted job value =>
      refine ⟨job, faithful.1, fun failed => ?_⟩
      rw [updatedJob, if_pos (faithful.2 failed)]
  | @unanswered job value | @undeleted job value => exact ⟨job, faithful.1, fun _ => rfl⟩
  | _ => trivial

/-- A job that is retried keeps the arguments that its handler left. -/
theorem processJob_retried {config : PoolConfig} {job : Job} {finish : Finish} {score : Int64}
    {written : RawJSON}
    (retried : (processJob config job finish).2 = some (.retry, score, written)) :
    (processJob config job finish).1.args = finish.after.args := by
  cases registered : config.jobType? job.name with
  | none =>
      simp only [processJob, registered, jobFate, terminateAndDead, ↓reduceIte, Option.some.injEq,
        Prod.mk.injEq, reduceCtorEq, false_and] at retried
  | some jobType =>
      cases outcome : finish.error with
      | none => simp only [processJob, registered, outcome, reduceCtorEq] at retried
      | some message => simp only [processJob, registered, outcome, Job.failed]

end Worker

namespace System

variable {deployment : Deployment} {state next : State} {event : Event}

/-- A step in which no worker finds an updated job under the key of a failed job. -/
def Unclaimed (deployment : Deployment) (state : State) : Event → Prop
  | .pool id (.worker index workerEvent) => ∀ worker ∈ (state.pools id).workers[index]?,
      Worker.Unclaimed deployment.ns state.redis worker workerEvent
  | _ => True

theorem unclaimed_iff : Unclaimed deployment state event ↔
    ∀ moved ∈ event.workerEvent?, ∀ worker ∈ (state.pools moved.1).workers[moved.2.1]?,
      Worker.Unclaimed deployment.ns state.redis worker moved.2.2 := by
  unfold Unclaimed Event.workerEvent?
  split <;> simp

instance (deployment : Deployment) (state : State) (event : Event) :
    Decidable (Unclaimed deployment state event) :=
  decidable_of_iff _ unclaimed_iff.symm

theorem faithful_reachable (reached : (system deployment).Reachable (Unclaimed deployment) state)
    (id : PoolID) : ∀ worker ∈ (state.pools id).workers, Worker.RunsPayload worker :=
  workers_invariant Worker.RunsPayload trivial
    (fun unclaimed present faithful moved => faithful.step (unclaimed _ present) moved) reached id

/-- In every run in which no worker finds an updated job under the key of a failed job: when
a job fails and is put on the retry set, a requeuer rewrites it and a worker runs it again,
the handler gets the job that failed, with the arguments it had and one more failure. -/
theorem retry_runs_failed_job
    (reached : (system deployment).Reachable (Unclaimed deployment) state)
    {config : PoolConfig} {job : Job} {finish : Finish} {score : Int64} {written : RawJSON}
    (retried : (Worker.processJob config job finish).2 = some (.retry, score, written))
    (kept : Worker.Finish.KeepsIdentity finish job) (counted : job.fails ≠ -1)
    {now : Int64} {lua : Json} {pushed : RawJSON} (decoded : Cjson.decode written = some lua)
    (encoded : Cjson.encode (Store.requeuedJob now lua) = some pushed)
    (fit : (Job.encodeArgs finish.after.args).numbersFit)
    (survives : Job.SurvivesRequeue now (Worker.processJob config job finish).1)
    {id : PoolID} {index : ℕ} {handed : FetchedJob}
    (running : (state.pools id).workers[index]? = some (.running handed pushed)) :
    handed.id = job.id ∧ handed.args = finish.after.normalise.args ∧
      handed.fails = job.fails + 1 := by
  obtain ⟨-, sameID, -, -⟩ :
      (Worker.processJob config job finish).1.name = job.name ∧ _ :=
    Worker.processJob_identity kept
  have fails : (Worker.processJob config job finish).1.fails = job.fails + 1 :=
    Worker.processJob_fails kept (by rw [retried]; simp)
  have args := Worker.processJob_retried retried
  obtain ⟨rfl, -⟩ := Worker.processJob_written retried
  generalize (Worker.processJob config job finish).1 = failed at *
  rw [← args] at fit
  obtain rfl := Job.requeuedBytes_eq decoded encoded
  obtain ⟨again, read, faithful⟩ := faithful_reachable reached id _ (List.mem_of_getElem? running)
  obtain ⟨-, -, -, document, same, readJob⟩ := newJob_eq_some read
  have settled := (Job.decode_requeued_iff fit).mpr survives
  rw [← RawJSON.json.inj same, settled] at readJob
  have replayed : again.toJob = { failed.normalise with enqueuedAt := now } :=
    (Option.some.inj readJob).symm
  have nonzero : again.fails ≠ 0 := by
    rw [replayed]
    change failed.fails ≠ 0
    rw [fails]
    grind
  rw [faithful nonzero, replayed]
  exact ⟨sameID, by rw [Job.normalise, Job.normalise, args], fails⟩

/-- A handler fails. -/
def failedRun (after : Job) : Finish := { completed "" "" with after, error := some "failed" }

/-- The job after its first failure. -/
def failedSend : Job :=
  (Worker.processJob (single.pool "A") (uniqueSend "1" 0 0 "")
    (failedRun (uniqueSend "1" 0 0 ""))).1

theorem retry_runs_failed_job_under_placeholder :
    ∃ state handed, (system single).Reachable (Unclaimed single) state ∧
      state.redis.list (.jobs "send") ≠ [] ∧
      (state.pools "A").workers[0]? = some (.running handed (failedSend.requeuedBytes 0)) ∧
      handed.id = "1" ∧ handed.args = none ∧ handed.fails = 0 + 1 := by
  have run : ∃ state, (system single).Reachable (Unclaimed single) state ∧
      state.redis.list (.jobs "send") ≠ [] ∧
      ∃ worker ∈ (state.pools "A").workers[0]?, ∃ handed ∈ worker.job?,
        worker = .running handed (failedSend.requeuedBytes 0) :=
    TransitionSystem.Reachable.exists_of_run (failedOnce ++ [enqueueSend "2"] ++ startUnique)
      initial_emptyState (by decide +kernel)
  obtain ⟨state, reached, queued, worker, present, handed, -, rfl⟩ := run
  have retried : (Worker.processJob (single.pool "A") (uniqueSend "1" 0 0 "")
      (failedRun (uniqueSend "1" 0 0 ""))).2 = some (.retry, 0, .json failedSend.serialize) := by
    decide +kernel
  have decoded : Cjson.decode (.json failedSend.serialize) =
      some (Cjson.decodeValue failedSend.serialize) := by decide +kernel
  have encoded : Cjson.encode (Store.requeuedJob 0 (Cjson.decodeValue failedSend.serialize)) =
      some (failedSend.requeuedBytes 0) := by decide +kernel
  exact ⟨state, handed, reached, queued, present, retry_runs_failed_job reached retried
    (by decide +kernel) (by decide) decoded encoded (by decide +kernel) (by decide +kernel) present⟩

/-- A call with a key map between the failure of a job and its retry: the handler gets the
job of the call, and the job that failed is removed with it. -/
theorem retry_runs_other_job :
    ∃ state, (system single).Reachable Ordinary state ∧
      ∃ worker ∈ (state.pools "A").workers[0]?, ∃ handed ∈ worker.job?,
        ∃ taken ∈ worker.taken, taken.2.textField "id" = some "1" ∧
          taken.2.field "fails" = some (.num (.int 1)) ∧ handed.id = "2" ∧ handed.fails = 0 :=
  TransitionSystem.Reachable.exists_of_run
    (boot ["send"] "A" ++ [callSend "1" (payload 1) true] ++ startUnique ++
      [endRun (Enqueuer.uniqueJob single.ns "send" "1" 0 (payload 1) (some [("k", .num (.int 1))]))
          (some "failed"),
        .pool "A" (.requeue .retry 0), callSend "2" (payload 2) true] ++ startUnique)
    initial_emptyState (by decide +kernel)

end System
