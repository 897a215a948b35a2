import WorkQueue.Delivery.Attempts

/-! # What becomes of a failed run

The fate of a failed job is decided after its handler has run, on the job as the handler has
left it. The job is removed from the jobs in progress in any case, but it is put back only if
it can still be encoded, and it is put back under the identifier and the count of failures it
then has. So a failed run keeps the job where it belongs exactly if the handler leaves the
arguments encodable and the identifier alone, and the count of failures can be compared with
the limit (`Worker.failed_run_kept_iff`).
-/

namespace Worker

variable {maxFails : UInt64} {fails : Int64}

/-- The set on which a job belongs after a failed run. -/
def failedSet (jobType : JobType) (job : Job) : ZSetKey :=
  if job.fails.toInt < jobType.maxFails.toNat then .retry else .dead

theorem retry_or_dead_inj {left right : Prop} [Decidable left] [Decidable right] :
    ((if left then ZSetKey.retry else .dead) = if right then .retry else .dead) ↔
      (left ↔ right) := by
  by_cases first : left <;> by_cases second : right <;> simp [first, second]

/-- The difference of the limit and a count of failures keeps its sign in 64 bits. -/
def Comparable (maxFails : UInt64) (fails : Int64) : Prop :=
  (maxFails.toNat : ℤ) - fails.toInt < 2 ^ 63 ∨ 2 ^ 64 < (maxFails.toNat : ℤ) - fails.toInt

instance (maxFails : UInt64) (fails : Int64) : Decidable (Comparable maxFails fails) :=
  inferInstanceAs (Decidable (_ ∨ _))

theorem comparable_iff :
    (0 < maxFails.toInt64 - fails ↔ fails.toInt < maxFails.toNat) ↔ Comparable maxFails fails := by
  have limit : maxFails.toInt64.toInt = (maxFails.toNat : ℤ).bmod (2 ^ 64) :=
    BitVec.toInt_eq_toNat_bmod maxFails.toBitVec
  have below := maxFails.toNat_lt
  have least := fails.le_toInt
  have greatest := fails.toInt_lt
  rw [Int64.lt_iff_toInt_lt, Int64.toInt_sub, limit, Int64.toInt_zero, Int.bmod_sub_bmod,
    Int.bmod_def, Comparable]
  omega

/-- The job after a failed run. -/
def afterFailure (finish : Finish) (message : String) : Job :=
  finish.after.failed message finish.failedAt

section Fate

variable {config : PoolConfig} {job : Job} {jobType : JobType} {finish : Finish} {message : String}

/-- A failed run of a job that is kept when it is dead adds the job to one of the two sets,
unless the job cannot be encoded. -/
theorem processJob_failed (registered : config.jobType? job.name = some jobType)
    (kept : jobType.skipDead = false) (failed : finish.error = some message) :
    ∃ score, processJob config job finish = (afterFailure finish message,
      if finish.marshals then
        some (if 0 < jobType.maxFails.toInt64 - (afterFailure finish message).fails then .retry
          else .dead, score, .json (afterFailure finish message).serialize)
      else none) := by
  unfold afterFailure
  by_cases retries :
      0 < jobType.maxFails.toInt64 - (finish.after.failed message finish.failedAt).fails
  · refine ⟨finish.now + finish.backoff, ?_⟩
    simp only [processJob, registered, failed, jobFate, terminateAndRetry, retries, ↓reduceIte]
  · refine ⟨finish.now, ?_⟩
    simp only [processJob, registered, failed, jobFate, terminateAndDead, retries, kept,
      Bool.false_eq_true, ↓reduceIte]

/-- What the completing transaction does to the sets. -/
theorem mem_zset_removeJobFromInProgress {redis : Store} {poolID : PoolID} {inProgQueue : ListKey}
    {jobName : String} {fate : TerminateOp} {raw member : RawJSON} {key : ZSetKey} :
    member ∈ ((removeJobFromInProgress redis poolID inProgQueue jobName fate raw).zset
        key).members ↔
      (∃ score, fate = some (key, score, member)) ∨ member ∈ (redis.zset key).members := by
  cases fate with
  | none => simp only [reduceCtorEq, exists_false, false_or]; rfl
  | some written =>
      obtain ⟨target, score, bytes⟩ := written
      by_cases same : key = target
      · subst same
        simp only [removeJobFromInProgress, Store.zset_zadd_self, SortedSet.mem_add,
          Option.some.injEq, Prod.mk.injEq, true_and, exists_and_right, exists_eq', eq_comm]
        rfl
      · simp only [removeJobFromInProgress, Store.zset_zadd_of_ne _ same, Option.some.injEq,
          Prod.mk.injEq, Ne.symm same, false_and, exists_false, false_or]
        rfl

end Fate

/-- For every job type that does not skip the dead jobs and every failed run of a job: once the
completing transaction is executed, the identifier of the job is on the retry set if its
failures are below the limit and among the dead jobs otherwise, if and only if the handler has
left a job that can be encoded, with the identifier it had, and with failures that can be
compared with the limit. -/
theorem failed_run_kept_iff {ns : String} {config : PoolConfig} {poolID : PoolID}
    {job : FetchedJob} {raw : RawJSON} {jobType : JobType} {finish : Finish} {message : String}
    (registered : config.jobType? job.name = some jobType) (kept : jobType.skipDead = false)
    (failed : finish.error = some message) :
    (∀ redis next worker reply, reply ≠ .failed →
        step ns config poolID redis (.running job raw) (.finish finish reply) =
          some (next, worker) →
        ∃ member ∈ (next.zset (failedSet jobType (afterFailure finish message))).members,
          member.hasID job.id) ↔
      finish.marshals ∧ finish.after.id = job.id ∧
        Comparable jobType.maxFails (finish.after.fails + 1) := by
  obtain ⟨score, processed⟩ := processJob_failed registered kept failed
  have fails : (afterFailure finish message).fails = finish.after.fails + 1 := rfl
  rw [← comparable_iff, ← fails]
  constructor
  · intro property
    have stepped : step ns config poolID System.emptyState.redis (.running job raw)
        (.finish finish .ok) = some (removeJobFromInProgress System.emptyState.redis poolID
          job.inProgQueue (processJob config job.toJob finish).1.name
          (processJob config job.toJob finish).2 raw, .idle) := rfl
    obtain ⟨member, present, own⟩ := property _ _ _ _ (by decide) stepped
    rw [mem_zset_removeJobFromInProgress] at present
    rcases present with ⟨time, written⟩ | impossible
    · rw [processed] at written
      cases marshals : finish.marshals with
      | false => simp only [marshals, Bool.false_eq_true, ↓reduceIte, reduceCtorEq] at written
      | true =>
          simp only [marshals, ↓reduceIte, Option.some.injEq, Prod.mk.injEq] at written
          obtain ⟨placed, -, rfl⟩ := written
          refine ⟨rfl, ?_, ?_⟩
          · have identified := Job.textField_serialize_id (afterFailure finish message)
            exact Option.some.inj (identified.symm.trans (of_decide_eq_true own))
          · exact retry_or_dead_inj.mp placed
    · exact (List.not_mem_nil impossible).elim
  · rintro ⟨marshals, same, comparable⟩ redis next worker reply executed stepped
    refine ⟨.json (afterFailure finish message).serialize, ?_, ?_⟩
    · cases step_cases stepped with
      | unfinished => exact (executed rfl).elim
      | finished =>
          rw [mem_zset_removeJobFromInProgress, processed]
          refine .inl ⟨score, ?_⟩
          simp only [marshals, ↓reduceIte, failedSet, comparable]
    · exact decide_eq_true (same ▸ Job.textField_serialize_id (afterFailure finish message))

/-- A failed run of the first job, after which it may not be encodable. -/
def failedRun (marshals : Bool) : Finish :=
  { after := System.failingJob 0, marshals, error := some "boom", failedAt := 1, now := 1,
    backoff := 1 }

/-- The first job as it is handed to its handler. -/
def handedJob : FetchedJob :=
  { System.failingJob 0 with
    rawJSON := .json (System.failingJob 0).serialize
    dequeuedFrom := .jobs "send"
    inProgQueue := .inProgress "A" "send" }

theorem failed_run_kept_first_failure :
    ∃ next worker, step "work" (System.single.pool "A") "A" System.emptyState.redis
        (.running handedJob handedJob.rawJSON) (.finish (failedRun true) .ok) =
          some (next, worker) ∧
      ∃ member ∈ (next.zset .retry).members, member.hasID "1" := by
  have registered : (System.single.pool "A").jobType? handedJob.name =
      some { name := "send", priority := 1, maxFails := 4, maxConcurrency := 1 } := by decide
  have kept := (@failed_run_kept_iff "work" (System.single.pool "A") "A" handedJob
    handedJob.rawJSON _ (failedRun true) "boom" registered rfl rfl).mpr (by decide)
  exact ⟨_, _, rfl, kept System.emptyState.redis _ _ .ok (by decide) rfl⟩

end Worker

/-- A handler that leaves a value in the arguments which cannot be encoded, and fails: the job
is gone. -/
theorem System.job_dropped_after_failure :
    ∃ state, (system single).Reachable (fun _ _ => True) state ∧
      runningJob? state "A" 0 = some Worker.handedJob ∧
      ∃ next ∈ step single state (.pool "A" (.worker 0 (.finish (Worker.failedRun false) .ok))),
        next.redis.list (.jobs "send") = [] ∧ next.redis.list (.inProgress "A" "send") = [] ∧
        (next.redis.zset .retry).members = [] ∧ (next.redis.zset .dead).members = [] :=
  TransitionSystem.Reachable.exists_of_run
    (boot ["send"] "A" ++ [.enqueuer (.enqueue "send" "1" 0 none),
      .pool "A" (.worker 0 (.fetch ["send"] .ok))])
    initial_emptyState (by decide +kernel)
