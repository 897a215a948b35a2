import WorkQueue.Delivery.Detour
import WorkQueue.Delivery.Tracking
import WorkQueue.System.Supply

/-! # Counting the failures of a job

The failures of a job are counted in its payload. A worker adds one when a run fails, and
the script that requeues the job writes the count with fourteen digits, so that it is kept
as long as it has no more (`RawJSON.Counts.requeued`). Between two completions the count is
the same wherever the payload goes (`System.countContract`), and the job does not get to the
dead jobs or away from them (`System.copies_dead_step`).
-/

/-- Arguments that scripts can decode and encode again. -/
def Job.FitArgs (args : Args) : Prop :=
  (encodeArgs args).numbersFit ∧ Cjson.depth (encodeArgs args) < Cjson.maxDepth

instance (args : Args) : Decidable (Job.FitArgs args) := inferInstanceAs (Decidable (_ ∧ _))

theorem Job.depth_serialize {job : Job} (fit : FitArgs job.args) :
    Cjson.depth job.serialize ≤ Cjson.maxDepth := by
  have flat : 0 < Cjson.maxDepth := by decide
  have omitted : ∀ empty key value, Cjson.depth value = 0 →
      ∀ field ∈ omitEmpty empty key value, Cjson.depth field.2 < Cjson.maxDepth := by
    intro empty key value zero field member
    cases empty with
    | true => exact (List.not_mem_nil member).elim
    | false =>
        rw [List.mem_singleton.mp member]
        exact zero ▸ flat
  refine Cjson.depth_obj_le.mpr ?_
  simp only [fields, List.mem_append, or_imp, forall_and, List.forall_mem_cons, List.not_mem_nil,
    IsEmpty.forall_iff, implies_true, and_true]
  exact ⟨⟨⟨⟨⟨⟨omitted _ _ _ rfl, flat, flat, fit.2⟩, omitted _ _ _ rfl⟩, omitted _ _ _ rfl⟩,
    omitted _ _ _ rfl⟩, omitted _ _ _ rfl⟩, omitted _ _ _ rfl⟩

/-- Workers and scripts can read a payload, and it counts the failures. -/
def RawJSON.Counts (fails : ℕ) (raw : RawJSON) : Prop :=
  ∃ document job, raw = .json document ∧ Job.decode document = some job ∧
    job.fails.toInt = fails ∧ Cjson.Short job.failedAt ∧ document.numbersFit ∧
    Cjson.depth document ≤ Cjson.maxDepth

namespace RawJSON.Counts

variable {fails : ℕ} {raw : RawJSON}

theorem serialize {job : Job} (counted : job.fails.toInt = fails)
    (stamped : Cjson.Short job.failedAt)
    (fit : Job.FitArgs job.args) : (RawJSON.json job.serialize).Counts fails :=
  ⟨job.serialize, job.normalise, rfl, job.decode_serialize fit.1, counted, stamped,
    Job.numbersFit_serialize fit.1, Job.depth_serialize fit⟩

theorem decodes (counts : raw.Counts fails) : (Cjson.decode raw).isSome ∧ raw.numbersFit := by
  obtain ⟨document, job, rfl, _, _, _, fit, shallow⟩ := counts
  refine ⟨?_, fit⟩
  rw [Cjson.decode, if_pos shallow]
  rfl

/-- The script that requeues a job keeps its count, as long as it is short. -/
theorem requeued (counts : raw.Counts fails) (unambiguous : raw.Unambiguous) (few : fails < 10 ^ 14)
    {now : Int64}
    (time : Cjson.Short now) {name : String} (named : raw.textField "name" = some name)
    (nonempty : name ≠ "") {lua : Json} {written : RawJSON} (decoded : Cjson.decode raw = some lua)
    (encoded : Cjson.encode (Store.requeuedJob now lua) = some written) :
    written.Counts fails := by
  obtain ⟨document, job, rfl, read, counted, stamped, fit, shallow⟩ := counts
  cases document with
  | obj fields =>
      have value : Cjson.decodeValue (.obj fields) = lua :=
        Option.some.inj ((if_pos shallow).symm.trans decoded)
      have short : Cjson.Short job.fails := by
        rw [Cjson.Short, counted, abs_lt]
        omega
      have renewed : (Json.obj (Json.setField "t" (.num (.int now.toInt)) fields)).Unambiguous :=
        Json.unambiguousNames_setField unambiguous (by decide) _
      obtain ⟨args, reread⟩ :=
        Cjson.decode_detour renewed (Job.decode_setField unambiguous read now) time short stamped
      obtain ⟨bounded, rfl⟩ := Cjson.of_encode encoded
      have inside : (Json.obj (Json.setField "t" (.num (.int now.toInt)) fields)).numbersFit := by
        rw [Json.numbersFit_obj, List.all_eq_true] at fit ⊢
        intro field member
        rcases List.mem_cons.mp member with rfl | kept
        · exact Float64.fits_int64 now
        · exact fit field (List.mem_filter.mp kept).1
      refine ⟨_, { job with enqueuedAt := now, args := args }, rfl, ?_, counted, stamped, ?_, ?_⟩
      · rw [← value, Store.requeuedJob, Cjson.encodeValue_setField]
        exact reread
      · rw [← value, Store.requeuedJob, Cjson.encodeValue_setField]
        exact Cjson.numbersFit_detour inside
      · rw [Cjson.depth_encodeValue]
        exact bounded.2
  | null => exact (nonempty (Option.some.inj named).symm).elim
  | bool value | num value | str value | arr items => cases read

end RawJSON.Counts

/-- The payloads in a place. -/
def Store.payloads (redis : Store) : Place → List RawJSON
  | .list key => redis.list key
  | .zset key => (redis.zset key).members

/-- The job is at the location and nowhere else, and its payload counts the failures. -/
def Store.JobAt (redis : Store) (jobID : String) (location : Option Place) (fails : ℕ) : Prop :=
  redis.Placed jobID location ∧
    ∀ place, ∀ raw ∈ redis.payloads place, raw.hasID jobID → raw.Counts fails

/-- Where a job of a name is between two runs and while it is run. -/
def Place.waits (name : String) : Place → Prop
  | .list key => key.name = name
  | .zset key => key ≠ .dead

namespace System

variable {deployment : Deployment} {state next : State} {event : Event} {name jobID : String}
  {runs : ℕ}

/-- Whether an event ends a run of the job. -/
def Event.completes (jobID : String) (state : State) : Event → Bool
  | .pool id (.worker index (.finish _ _)) =>
      (runningJob? state id index).any fun job => job.id = jobID
  | _ => false

theorem completes_iff : event.completes jobID state ↔ ∃ id index finish reply job,
    event = .pool id (.worker index (.finish finish reply)) ∧
      runningJob? state id index = some job ∧ job.id = jobID := by
  constructor
  · intro completes
    unfold Event.completes at completes
    split at completes
    · next id index finish reply =>
        cases running : runningJob? state id index with
        | none =>
            rw [running] at completes
            cases completes
        | some job =>
            rw [running] at completes
            exact ⟨id, index, finish, reply, job, rfl, running, of_decide_eq_true completes⟩
    · cases completes
  · rintro ⟨id, index, finish, reply, job, rfl, running, own⟩
    simp [Event.completes, running, own]

/-- The system with the stage of a job and the number of its runs. -/
def counting (deployment : Deployment) (jobID : String) :
    TransitionSystem (State × Stage × ℕ) Event :=
  (system deployment).monitored (.fresh, 0) fun memory state event next =>
    (memory.1.observe deployment jobID state event next,
      if event.completes jobID state then memory.2 + 1 else memory.2)

/-- The job is enqueued once, under the name, its handler always fails, and its arguments
can be encoded by scripts. Its completion is executed. There are no clients and no crashes,
and the clocks of requeuers and workers show at most fourteen digits. -/
def AlwaysFails (name jobID : String) (state : State) (stage : Stage) : Event → Prop
  | .enqueuer (.enqueue other id _ args) =>
      id = jobID → stage = .fresh ∧ other = name ∧ Job.FitArgs args
  | .enqueuer (.enqueueAt other id _ args _) =>
      id = jobID → stage = .fresh ∧ other = name ∧ Job.FitArgs args
  | .pool id (.worker index (.finish finish reply)) =>
      finish.marshals ∧ ∀ job ∈ runningJob? state id index, job.id = jobID →
        finish.error.isSome ∧ reply ≠ .failed ∧ Job.FitArgs finish.after.args ∧
          Cjson.Short finish.failedAt
  | .pool _ (.requeue _ now) => Cjson.Short now
  | .pool _ .crash => False
  | .client _ => False
  | _ => True

instance (stage : Stage) : Decidable (AlwaysFails name jobID state stage event) := by
  unfold AlwaysFails
  split <;> infer_instance

/-- Runs of a job that is not unique and whose handler always fails. Reapers take no living
pool for dead. -/
def Failing (name jobID : String) (pair : State × Stage × ℕ) (event : Event) : Prop :=
  NonUnique jobID pair.1 event ∧ ReapsCrashed pair.1 event ∧
    AlwaysFails name jobID pair.1 pair.2.1 event

instance (pair : State × Stage × ℕ) (event : Event) : Decidable (Failing name jobID pair event) :=
  inferInstanceAs (Decidable (_ ∧ _ ∧ _))

/-- Steps that do not end a run of the job. A script that rewrites the job finds a count of
at most fourteen digits. -/
def Steady (name jobID : String) (runs : ℕ) (state : State) (event : Event) : Prop :=
  ∃ stage, Failing name jobID (state, stage, runs) event ∧ event.completes jobID state = false ∧
    (stage = .fresh → runs = 0) ∧
    ∀ key ∈ event.rewrites?, ∀ raw ∈ (state.redis.zset key).members, raw.hasID jobID →
      runs < 10 ^ 14

theorem tagged_foreign {raw : RawJSON} (unambiguous : raw.Unambiguous)
    (identified : ∃ id, raw.textField "id" = some id)
    (foreign : raw.hasID jobID = false) : Tagged jobID name raw := by
  refine ⟨unambiguous, identified, fun own => ?_, fun own => ?_⟩ <;>
  · rw [foreign] at own
    cases own

/-- A payload is tagged with the name, and that of the job counts its failures. -/
structure Tallied (jobID name : String) (runs : ℕ) (raw : RawJSON) : Prop where
  tagged : Tagged jobID name raw
  counts : raw.hasID jobID → raw.Counts runs

theorem tallied_foreign {raw : RawJSON} (unambiguous : raw.Unambiguous)
    (identified : ∃ id, raw.textField "id" = some id)
    (foreign : raw.hasID jobID = false) : Tallied jobID name runs raw := by
  refine ⟨tagged_foreign unambiguous identified foreign, fun own => ?_⟩
  rw [foreign] at own
  cases own

theorem tallied_serialize {job : Job} (own : job.id = jobID → job.name = name ∧ name ≠ "" ∧
      job.unique = false ∧ job.fails.toInt = runs ∧ Cjson.Short job.failedAt ∧
      Job.FitArgs job.args) : Tallied jobID name runs (.json job.serialize) := by
  by_cases mine : job.id = jobID
  · obtain ⟨rfl, nonempty, plain, counted, stamped, fit⟩ := own mine
    exact ⟨tagged_serialize job fun _ => ⟨nonempty, plain⟩, fun _ => .serialize counted stamped fit⟩
  · exact tallied_foreign job.unambiguous_serialize ⟨job.id, job.textField_serialize_id⟩
      ((hasID_serialize job).trans (decide_eq_false mine))

theorem tallied_plainJob {other id : String} {now : Int64} {args : Args} {stage : Stage}
    (nonempty : id = jobID → other ≠ "")
    (once : id = jobID → stage = .fresh ∧ other = name ∧ Job.FitArgs args)
    (first : stage = .fresh → runs = 0) :
    Tallied jobID name runs (.json (Enqueuer.plainJob other id now args).serialize) := by
  refine tallied_serialize fun own => ?_
  obtain ⟨fresh, rfl, fit⟩ := once own
  rw [first fresh]
  exact ⟨rfl, nonempty own, rfl, rfl, show Cjson.Short 0 by decide, fit⟩

/-- What the completion of another job writes is not the job. -/
theorem hasID_written {id : PoolID} {index : ℕ} {job : FetchedJob} {raw written : RawJSON}
    {finish : Finish} {reply : Reply} {key : ZSetKey} {score : Int64}
    (plain : NonUnique jobID state (.pool id (.worker index (.finish finish reply))))
    (running : (state.pools id).workers[index]? = some (.running job raw))
    (other : job.id ≠ jobID)
    (fate : (Worker.processJob (deployment.pool id) job.toJob finish).2 =
      some (key, score, written)) : written.hasID jobID = false := by
  have kept := plain.1.2 _ rfl job (runningJob?_of_running running)
  rw [(Worker.processJob_written fate).1, hasID_serialize, (Worker.processJob_identity kept).2.1]
  exact decide_eq_false other

/-- A requeuer that knows the name of the job does not bury it. -/
theorem hasID_buried {raw written : RawJSON} {lua : Json} {other : String} {names : List String}
    {now : Int64} (tagged : Tagged jobID name raw) (decoded : Cjson.decode raw = some lua)
    (queued : (Cjson.index "name" lua).bind Cjson.concat = some other) (known : name ∈ names)
    (unknown : other ∉ names) (encoded : Cjson.encode (Store.unknownJob now lua) = some written) :
    written.hasID jobID = false := by
  rw [(RawJSON.hasID_rewritten tagged.identified decoded encoded
    (Store.sameIdentity_unknownJob now lua)).2]
  by_contra own
  have mine : raw.hasID jobID := Bool.eq_true_of_not_eq_false own
  have same : some other = some name :=
    ((tagged.queue decoded queued).named mine).1.symm.trans (tagged.named mine).1
  rw [Option.some.inj same] at unknown
  exact unknown known

theorem id_ne_of_steady {id : PoolID} {index : ℕ} {job : FetchedJob} {raw : RawJSON}
    {finish : Finish} {reply : Reply}
    (others : (Event.pool id (.worker index (.finish finish reply))).completes jobID state = false)
    (running : (state.pools id).workers[index]? = some (.running job raw)) : job.id ≠ jobID := by
  intro own
  simp [Event.completes, runningJob?_of_running running, own] at others

/-- The count of failures in payloads and at workers between two completions. -/
def countContract (known : ∀ id, name ∈ (deployment.pool id).names) (jobID : String) (runs : ℕ) :
    PayloadContract deployment (Steady name jobID runs) where
  payload _ := Tallied jobID name runs
  job _ job := job.id = jobID → job.name = name ∧ job.unique = false ∧ job.fails.toInt = runs
  value _ raw := raw.Unambiguous ∧ raw.hasID jobID = false
  enqueued _ other id now args := by
    rintro ⟨stage, ⟨plain, _, once⟩, _, first, _⟩
    exact tallied_plainJob (fun own => (plain.2 _ rfl own).1) once first
  scheduled _ other id now args epochSeconds := by
    rintro ⟨stage, ⟨plain, _, once⟩, _, first, _⟩
    exact tallied_plainJob (fun own => (plain.2 _ rfl own).1) once first
  enqueuedUnique state other id now args keyMap runAt := by
    rintro ⟨stage, ⟨plain, _, _⟩, _⟩
    refine ⟨tallied_serialize fun own => ?_, ?_⟩
    · exact nomatch (plain.2 _ rfl own).2
    · exact ((identityContract deployment jobID).enqueuedUnique state other id now args keyMap
        runAt plain).2
  pushed _ _ _ := by
    rintro ⟨stage, ⟨plain, _, _⟩, _⟩
    exact Bool.noConfusion plain.1.1
  decoded _ raw source target fetched tallied decoded := by
    intro own
    obtain ⟨names, ids, -⟩ := newJob_textField tallied.tagged.unambiguous decoded
    obtain ⟨-, -, -, document, rfl, read⟩ := newJob_eq_some decoded
    have mine : (RawJSON.json document).hasID jobID :=
      decide_eq_true (ids.trans (congrArg some own))
    obtain ⟨_, job, same, reread, counted, _⟩ := tallied.counts mine
    obtain rfl := RawJSON.json.inj same
    obtain rfl := Option.some.inj (read.symm.trans reread)
    refine ⟨Option.some.inj (names.symm.trans (tallied.tagged.named mine).1), ?_, counted⟩
    exact (newJob_unique tallied.tagged.unambiguous decoded).symm.trans (tallied.tagged.plain mine)
  updated _ _ raw source target fetched _ valued _ decoded := by
    intro own
    obtain ⟨-, ids, -⟩ := newJob_textField valued.1 decoded
    have mine : raw.hasID jobID = true := decide_eq_true (ids.trans (congrArg some own))
    rw [valued.2] at mine
    cases mine
  failed state id index other fetched raw finish reply key score written running := by
    rintro ⟨stage, ⟨plain, _, _⟩, others, _⟩ _ fate
    have foreign := hasID_written plain running (id_ne_of_steady others running) fate
    obtain ⟨rfl, -⟩ := Worker.processJob_written fate
    exact ⟨other, tallied_foreign (Job.unambiguous_serialize _) ⟨_, Job.textField_serialize_id _⟩
      foreign⟩
  requeued state id key now _ raw lua other written := by
    rintro ⟨stage, ⟨_, _, time⟩, _, _, few⟩ member ⟨tagged, counts⟩ decoded _ encoded
    have same := Store.sameIdentity_requeuedJob now lua
    refine ⟨tagged.rewrite decoded encoded same, fun own => ?_⟩
    rw [(RawJSON.hasID_rewritten tagged.identified decoded encoded same).2] at own
    obtain ⟨named, nonempty⟩ := tagged.named own
    exact (counts own).requeued tagged.unambiguous (few key rfl raw member own) time named nonempty
      decoded encoded
  buried state id key now _ raw lua other written := by
    rintro _ ⟨tagged, counts⟩ decoded queued unknown encoded
    refine ⟨other, tagged.buried decoded encoded, fun own => ?_⟩
    rw [hasID_buried tagged decoded queued (known id) unknown encoded] at own
    cases own
  revived _ _ _ _ _ _ _ _ := by
    rintro ⟨stage, ⟨_, _, never⟩, _⟩
    exact never.elim
  kept _ _ _ _ _ _ _ := by
    rintro ⟨stage, ⟨_, _, never⟩, _⟩
    exact never.elim

/-- A requeuer works on a waiting set. -/
theorem step_requeue {id : PoolID} {key : ZSetKey} {now : Int64}
    (stepped : step deployment state (.pool id (.requeue key now)) = some next) :
    key ≠ .dead ∧
      next.redis = (state.redis.redisLuaZremLpushCmd key (deployment.pool id).names now).1 := by
  obtain ⟨pool, _, moved⟩ := step_pool stepped
  generalize next.redis = redis at moved ⊢
  cases moved with
  | requeued alive =>
      refine ⟨?_, rfl⟩
      rintro rfl
      generalize (state.pools id).phase = phase at alive
      cases phase <;> cases alive

section Dead

variable {known : ∀ id, name ∈ (deployment.pool id).names}

theorem copies_dead_enqueuer (ns : String) (redis : Store) (call : Enqueuer.Call) :
    (Enqueuer.execute ns redis call).copies jobID (.zset .dead) =
      redis.copies jobID (.zset .dead) := by
  have apart : ZSetKey.dead ≠ .scheduled := by decide
  cases call with
  | enqueue name id now args | addToKnownJobs name => rfl
  | enqueueAt name id now args epochSeconds =>
      rw [Enqueuer.execute, Store.copies, Store.zset_zadd_of_ne _ apart, Store.copies]
  | enqueueUnique name id now args keyMap runAt =>
      have outcome := Enqueuer.execute_unique_cases ns redis name id now args keyMap runAt
      generalize Enqueuer.execute ns redis (.enqueueUnique name id now args keyMap runAt) = after
        at outcome ⊢
      cases outcome with
      | duplicate | queued => rfl
      | scheduled =>
          rw [Store.copies, Store.zset_zadd_of_ne _ apart]
          rfl

theorem copies_zadd_foreign (redis : Store) {key other : ZSetKey} (score : Int) {raw : RawJSON}
    (foreign : raw.hasID jobID = false) :
    (redis.zadd key score raw).copies jobID (.zset other) = redis.copies jobID (.zset other) := by
  by_cases same : other = key
  · subst same
    rw [Store.copies, Store.zset_zadd_self, SortedSet.countP_add_of_neg _ _ foreign, Store.copies]
  · rw [Store.copies, Store.zset_zadd_of_ne _ same, Store.copies]

/-- Between two completions the job does not die and does not come back to life. -/
theorem copies_dead_step (tallied : (countContract known jobID runs).Everywhere state)
    (steady : Steady name jobID runs state event)
    (stepped : step deployment state event = some next) :
    next.redis.copies jobID (.zset .dead) = state.redis.copies jobID (.zset .dead) := by
  obtain ⟨stage, ⟨plain, _, failing⟩, others, _⟩ := steady
  cases event with
  | enqueuer call =>
      cases stepped
      exact copies_dead_enqueuer _ _ _
  | client call => exact failing.elim
  | pause other paused =>
      cases stepped
      rfl
  | push other raw => exact nomatch plain.1.1
  | pool id poolEvent =>
      by_cases completes : ∃ index finish reply, poolEvent = .worker index (.finish finish reply)
      · obtain ⟨index, finish, reply, rfl⟩ := completes
        obtain ⟨worker, worker', present, _, moved⟩ := step_own_worker stepped
        generalize next.redis = redis at moved ⊢
        cases moved with
        | unfinished => rfl
        | @finished job raw _ _ executed =>
            have other := id_ne_of_steady others present
            unfold Worker.removeJobFromInProgress
            cases fate : (Worker.processJob (deployment.pool id) job.toJob finish).2 with
            | none => rfl
            | some added =>
                obtain ⟨key, score, written⟩ := added
                exact copies_zadd_foreign _ _ (hasID_written plain present other fate)
      · by_cases requeues : ∃ key now, poolEvent = .requeue key now
        · obtain ⟨key, now, rfl⟩ := requeues
          obtain ⟨waiting, same⟩ := step_requeue stepped
          rw [same]
          have outcome := state.redis.redisLuaZremLpushCmd_cases key (deployment.pool id).names now
          generalize state.redis.redisLuaZremLpushCmd key (deployment.pool id).names now = result
            at outcome ⊢
          have removed : ∀ raw, (state.redis.zrem key raw).copies jobID (.zset .dead) =
              state.redis.copies jobID (.zset .dead) := by
            intro raw
            rw [Store.copies, Store.zset_zrem_of_ne _ (Ne.symm waiting), Store.copies]
          cases outcome with
          | nothing | undecodable => rfl
          | buried due decoded named unknown encoded =>
              have member := SortedSet.mem_of_mem_upTo (List.mem_of_head? due)
              obtain ⟨_, payload⟩ := tallied.store.zsets key _ member
              rw [copies_zadd_foreign _ _
                (hasID_buried payload.tagged decoded named (known id) unknown encoded), removed]
          | _ => exact removed _
        · obtain ⟨pool, _, moved⟩ := step_pool stepped
          rw [Store.copies, moved.zset_eq (fun index finish reply same =>
            completes ⟨index, finish, reply, same⟩) (fun key now same =>
            requeues ⟨key, now, same⟩), Store.copies]

end Dead

end System
