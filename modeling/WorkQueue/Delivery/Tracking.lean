import WorkQueue.Accounting.Names
import WorkQueue.Delivery.Places
import WorkQueue.System.Database
import WorkQueue.System.Holding

/-! # No job is lost or duplicated

A job that is enqueued once, and not as a unique job, is followed by its identifier
through a run. From its enqueueing on it is in exactly one place, exactly once, until it
completes, is dropped or is deleted by a client (`job_in_one_place`). Every step either
leaves its payload alone or takes it from one place to another: what a worker completes
is on the list it was fetched to as long as reapers take only crashed pools for dead. A job
that fails and can no longer be encoded is lost (`lost_when_unencodable`).
-/

namespace Worker

/-- Whether a job is not kept after its run: it succeeded, or it has failed for the last
time and its type skips the dead jobs. -/
def ends (config : PoolConfig) (job : Job) (finish : Finish) : Bool :=
  match config.jobType? job.name with
  | none => false
  | some jobType =>
      finish.error = none ||
        (jobType.skipDead && !(0 < jobType.maxFails.toInt64 - (finish.after.fails + 1) : Bool))

/-- A completing transaction adds nothing when the job is not kept. -/
theorem processJob_eq_none {config : PoolConfig} {job : Job} {finish : Finish}
    (marshals : finish.marshals) :
    (processJob config job finish).2 = none ↔ ends config job finish := by
  unfold ends
  cases registered : config.jobType? job.name with
  | none => simp [processJob, registered, jobFate, terminateAndDead]
  | some jobType =>
      cases outcome : finish.error with
      | none => simp [processJob, registered, outcome]
      | some message =>
          simp only [processJob, registered, outcome, jobFate, Job.failed, reduceCtorEq,
            decide_false, Bool.false_or, Bool.and_eq_true, Bool.not_eq_true',
            decide_eq_false_iff_not]
          by_cases retries : 0 < jobType.maxFails.toInt64 - (finish.after.fails + 1)
          · simp [retries, terminateAndRetry, marshals]
          · by_cases skips : jobType.skipDead
            · simp [retries, skips]
            · simp [retries, skips, terminateAndDead, marshals]

/-- The completion of a failed run after which the job can no longer be encoded adds nothing. -/
theorem processJob_unencodable {config : PoolConfig} {job : Job} {finish : Finish}
    (registered : (config.jobType? job.name).isSome) (unencodable : finish.marshals = false) :
    (processJob config job finish).2 = none := by
  obtain ⟨jobType, found⟩ := Option.isSome_iff_exists.mp registered
  cases outcome : finish.error with
  | none => simp [processJob, found, outcome]
  | some message =>
      simp [processJob, found, outcome, jobFate, terminateAndRetry,
        terminateAndDead, unencodable]

end Worker

namespace System

variable {deployment : Deployment} {state next : State} {event : Event} {jobID : String}

/-- What an event enqueues: the identifier, the job name and whether the job is unique. -/
def Event.enqueues? : Event → Option (String × String × Bool)
  | .enqueuer (.enqueue name id _ _) => some (id, name, false)
  | .enqueuer (.enqueueAt name id _ _ _) => some (id, name, false)
  | .enqueuer (.enqueueUnique name id _ _ _ _) => some (id, name, true)
  | _ => none

/-- The identifier is used for a named job that is not unique. -/
def NonUnique (jobID : String) (state : State) (event : Event) : Prop :=
  OwnPayloads state event ∧ ∀ enqueued ∈ event.enqueues?, enqueued.1 = jobID →
    enqueued.2.1 ≠ "" ∧ enqueued.2.2 = false

instance (state : State) (event : Event) : Decidable (NonUnique jobID state event) :=
  inferInstanceAs (Decidable (_ ∧ _))

/-- A payload has an identifier and doubles no field, and that of the job has its name and
is not unique. -/
structure Tagged (jobID name : String) (raw : RawJSON) : Prop where
  unambiguous : raw.Unambiguous
  identified : ∃ id, raw.textField "id" = some id
  named : raw.hasID jobID → raw.textField "name" = some name ∧ name ≠ ""
  plain : raw.hasID jobID → raw.isUnique = false

theorem tagged_serialize (job : Job) (own : job.id = jobID → job.name ≠ "" ∧ job.unique = false) :
    Tagged jobID job.name (.json job.serialize) where
  unambiguous := job.unambiguous_serialize
  identified := ⟨job.id, job.textField_serialize_id⟩
  named mine := by
    have same : some job.id = some jobID :=
      job.textField_serialize_id.symm.trans (of_decide_eq_true mine)
    exact ⟨job.textField_serialize_name, (own (Option.some.inj same)).1⟩
  plain mine := by
    have same : some job.id = some jobID :=
      job.textField_serialize_id.symm.trans (of_decide_eq_true mine)
    exact job.isUnique_serialize.trans (own (Option.some.inj same)).2

/-- A script that keeps the identity of a payload keeps it tagged. -/
theorem Tagged.rewrite {name : String} {raw written : RawJSON} {lua edited : Json}
    (tagged : Tagged jobID name raw) (decoded : Cjson.decode raw = some lua)
    (encoded : Cjson.encode edited = some written)
    (kept : Store.SameIdentity lua edited) : Tagged jobID name written := by
  obtain ⟨identified, same⟩ := RawJSON.hasID_rewritten tagged.identified decoded encoded kept
  refine ⟨?_, identified, ?_, ?_⟩
  · exact Cjson.unambiguous_encode encoded
      (kept.unambiguous (Cjson.unambiguous_decode decoded tagged.unambiguous))
  · intro own
    obtain ⟨named, nonempty⟩ := tagged.named (same ▸ own)
    refine ⟨?_, nonempty⟩
    rw [Cjson.textField_encode encoded, kept.name]
    exact Cjson.textField_decode decoded named
  · intro own
    rw [Cjson.isUnique_encode encoded, kept.unique, Cjson.isUnique_decode decoded]
    exact tagged.plain (same ▸ own)

theorem Tagged.buried {name : String} {raw written : RawJSON} {lua : Json} {now : Int64}
    (tagged : Tagged jobID name raw) (decoded : Cjson.decode raw = some lua)
    (encoded : Cjson.encode (Store.unknownJob now lua) = some written) :
    Tagged jobID name written :=
  tagged.rewrite decoded encoded (Store.sameIdentity_unknownJob now lua)

/-- The queue to which a script requeues a payload of the job is the one of its name. -/
theorem Tagged.queue {name queue : String} {raw : RawJSON} {lua : Json}
    (tagged : Tagged jobID name raw) (decoded : Cjson.decode raw = some lua)
    (queued : (Cjson.index "name" lua).bind Cjson.concat = some queue) :
    Tagged jobID queue raw := by
  refine ⟨tagged.unambiguous, tagged.identified, ?_, tagged.plain⟩
  intro own
  obtain ⟨named, nonempty⟩ := tagged.named own
  obtain ⟨field, indexed, concatenated⟩ := Option.bind_eq_some_iff.mp queued
  obtain rfl := Cjson.concat_index_eq (Cjson.textField_decode decoded named) indexed concatenated
  exact ⟨named, nonempty⟩

/-- The identity of the job in payloads, at workers and under unique keys. -/
def identityContract (deployment : Deployment) (jobID : String) :
    PayloadContract deployment (NonUnique jobID) where
  payload := Tagged jobID
  job name job := job.id = jobID → job.name = name ∧ name ≠ "" ∧ job.unique = false
  value _ raw := raw.Unambiguous ∧ raw.hasID jobID = false
  enqueued _ name id now args allowed :=
    tagged_serialize (Enqueuer.plainJob name id now args) fun own => allowed.2 _ rfl own
  scheduled _ name id now args _ allowed :=
    tagged_serialize (Enqueuer.plainJob name id now args) fun own => allowed.2 _ rfl own
  enqueuedUnique _ name id now args keyMap _ allowed := by
    have different : id ≠ jobID := by
      intro same
      exact nomatch (allowed.2 _ rfl same).2
    refine ⟨tagged_serialize (Enqueuer.uniqueJob deployment.ns name id now args keyMap)
      fun own => (different own).elim, ?_⟩
    cases keyMap with
    | none => exact ⟨trivial, rfl⟩
    | some fields =>
        refine ⟨Job.unambiguous_serialize _, ?_⟩
        simp only [Enqueuer.updatedValue, RawJSON.hasID, RawJSON.textField,
          Job.textField_serialize_id]
        exact decide_eq_false fun same => different (Option.some.inj same)
  pushed _ _ _ allowed := Bool.noConfusion allowed.1.1
  decoded name raw source target fetched tagged decoded := by
    intro own
    obtain ⟨names, ids, -⟩ := newJob_textField tagged.unambiguous decoded
    have mine : raw.hasID jobID := decide_eq_true (ids.trans (congrArg some own))
    obtain ⟨named, nonempty⟩ := tagged.named mine
    refine ⟨Option.some.inj (names.symm.trans named), nonempty, ?_⟩
    exact (newJob_unique tagged.unambiguous decoded).symm.trans (tagged.plain mine)
  updated name original raw source target fetched held valued updating decoded := by
    intro own
    obtain ⟨-, ids, -⟩ := newJob_textField valued.1 decoded
    have mine : raw.hasID jobID = true := decide_eq_true (ids.trans (congrArg some own))
    rw [valued.2] at mine
    cases mine
  failed state id index name fetched raw finish reply key score written running allowed held
      fate := by
    have kept := allowed.1.2 _ rfl fetched (runningJob?_of_running running)
    obtain ⟨sameName, sameID, sameUnique, -⟩ := Worker.processJob_identity kept
    obtain ⟨rfl, -⟩ := Worker.processJob_written fate
    refine ⟨_, tagged_serialize _ ?_⟩
    rw [sameID, sameName, sameUnique]
    intro own
    obtain ⟨rfl, nonempty, plain⟩ := held own
    exact ⟨nonempty, plain⟩
  requeued _ _ _ now name raw lua other written _ _ tagged decoded queued encoded :=
    (tagged.queue decoded queued).rewrite decoded encoded (Store.sameIdentity_requeuedJob now lua)
  buried _ _ _ _ name _ _ _ _ _ tagged decoded _ _ encoded :=
    ⟨name, tagged.buried decoded encoded⟩
  revived _ _ name raw lua other now written _ tagged decoded queued encoded :=
    (tagged.queue decoded queued).rewrite decoded encoded (Store.sameIdentity_revivedJob now lua)
  kept _ _ name _ _ _ _ _ tagged decoded encoded := ⟨name, tagged.buried decoded encoded⟩

/-- A worker runs the job exactly when it has taken the payload of the job. -/
def Faithful (jobID : String) : Worker.State → Prop
  | .idle | .stopped => True
  | .fetched job => job.unique ∧ job.rawJSON.hasID jobID = false
  | .gotUnique job _ => job.unique ∧ job.rawJSON.hasID jobID = false
  | .running job raw => job.id = jobID ↔ raw.hasID jobID

theorem faithful_received {name : String} {raw : RawJSON} {source target : ListKey}
    (tagged : Tagged jobID name raw) :
    Faithful jobID (Worker.received (some (some (raw, source, target)))) := by
  rw [Worker.received_some]
  cases decoded : newJob raw source target with
  | none => exact trivial
  | some job =>
      obtain ⟨same, -, -, -⟩ := newJob_eq_some decoded
      obtain ⟨-, ids, -⟩ := newJob_textField tagged.unambiguous decoded
      simp only
      split
      · next unique =>
          refine ⟨unique, ?_⟩
          rw [same]
          by_contra own
          have plain := tagged.plain (Bool.eq_true_of_not_eq_false own)
          rw [newJob_unique tagged.unambiguous decoded, unique] at plain
          cases plain
      · simp only [Faithful, same, RawJSON.hasID, ids, Option.some.injEq, decide_eq_true_eq]

/-- A unique job that a worker holds is another one. -/
theorem id_ne_of_unique {id : PoolID} {job : FetchedJob}
    (held : (identityContract deployment jobID).Held id job) (unique : job.unique) :
    job.id ≠ jobID := by
  intro own
  obtain ⟨name, _, _, plain⟩ := held
  rw [(plain own).2.2] at unique
  cases unique

theorem faithful_step {id : PoolID} {worker worker' : Worker.State} {workerEvent : Worker.Event}
    {redis : Store} (contract : (identityContract deployment jobID).Everywhere state)
    (atWorker : (identityContract deployment jobID).AtWorker id worker)
    (faithful : Faithful jobID worker)
    (moved : Worker.Case deployment.ns (deployment.pool id) id state.redis worker workerEvent redis
      worker') : Faithful jobID worker' := by
  cases moved with
  | @taken order reply name raw rest member executed split =>
      have tagged : Tagged jobID name raw :=
        contract.store.lists (.jobs name) raw (by rw [split]; simp)
      split
      · exact faithful_received tagged
      · exact trivial
  | nothing | finished | unfinished | stopped => exact trivial
  | got => exact faithful
  | missed => exact iff_of_false (id_ne_of_unique atWorker faithful.1) (by simp [faithful.2])
  | unanswered | undeleted =>
      exact iff_of_false (id_ne_of_unique atWorker.1 faithful.1) (by simp [faithful.2])
  | @deleted job raw =>
      refine iff_of_false ?_ (by simp [faithful.2])
      unfold Worker.updatedJob
      split
      · exact id_ne_of_unique atWorker.1 faithful.1
      · cases decoded : newJob raw job.dequeuedFrom job.inProgQueue with
        | none => exact id_ne_of_unique atWorker.1 faithful.1
        | some other =>
            intro own
            obtain ⟨unambiguous, foreign⟩ : raw.Unambiguous ∧ raw.hasID jobID = false := atWorker.2
            obtain ⟨-, ids, -⟩ := newJob_textField unambiguous decoded
            have mine : raw.hasID jobID = true := decide_eq_true (ids.trans (congrArg some own))
            rw [foreign] at mine
            cases mine

/-- The stages of a job: not yet enqueued, on its way, or completed, dropped or deleted. -/
inductive Stage where
  | fresh
  | live
  | over
  deriving DecidableEq

namespace Stage

/-- The stage after a step. A job is over when its run has ended and is not kept, or when
a client deletes it. -/
def observe (deployment : Deployment) (jobID : String) (stage : Stage) (state : State)
    (event : Event) (next : State) : Stage :=
  match event with
  | .enqueuer (.enqueue _ id _ _) => if id = jobID then .live else stage
  | .enqueuer (.enqueueAt _ id _ _ _) => if id = jobID then .live else stage
  | .pool id (.worker index (.finish finish reply)) =>
      match runningJob? state id index with
      | some job =>
          if reply ≠ .failed ∧ job.id = jobID ∧
              Worker.ends (deployment.pool id) job.toJob finish then .over
          else stage
      | none => stage
  | .client (.deleteZsetJob key _ id) =>
      if id = jobID ∧ next.redis.copies jobID (.zset key) ≠ state.redis.copies jobID (.zset key)
      then .over else stage
  | .client .deleteAllDeadJobs =>
      if state.redis.copies jobID (.zset .dead) ≠ 0 then .over else stage
  | _ => stage

/-- Where a job of a stage is: in one place as long as it is live. -/
def Fits (stage : Stage) (redis : Store) (jobID : String) : Prop :=
  ∃ location, redis.Placed jobID location ∧ (location.isSome ↔ stage = .live)

end Stage

/-- The sorted set whose payloads a script rewrites. -/
def Event.rewrites? : Event → Option ZSetKey
  | .pool _ (.requeue key _) => some key
  | .client (.retryDeadJob _ _ _ _) => some .dead
  | .client (.retryAllDeadJobs _ _) => some .dead
  | _ => none

/-- Runs in which the identifier is used once, for a named job that is not unique. Reapers
take only crashed pools for dead, what a handler leaves of the job can be encoded, and the
numbers of the job's payload are doubles when a script rewrites it. -/
def Distinct (jobID : String) (pair : State × Stage) (event : Event) : Prop :=
  NonUnique jobID pair.1 event ∧
    (∀ enqueued ∈ event.enqueues?, enqueued.1 = jobID → pair.2 = .fresh) ∧
    ReapsCrashed pair.1 event ∧
    (∀ completion ∈ event.finish?, ∀ job ∈ runningJob? pair.1 completion.1 completion.2.1,
      job.id = jobID → completion.2.2.marshals) ∧
    ∀ key ∈ event.rewrites?, ∀ raw ∈ (pair.1.redis.zset key).members, raw.hasID jobID →
      raw.numbersFit

instance (pair : State × Stage) (event : Event) : Decidable (Distinct jobID pair event) :=
  inferInstanceAs (Decidable (_ ∧ _ ∧ _ ∧ _ ∧ _))

theorem hasID_serialize (job : Job) :
    (RawJSON.json job.serialize).hasID jobID = decide (job.id = jobID) := by
  simp only [RawJSON.hasID, RawJSON.textField, Job.textField_serialize_id, Option.some.injEq]

namespace Stage.Fits

variable {stage : Stage} {redis after : Store}

theorem congr (fits : stage.Fits redis jobID) (list : after.list = redis.list)
    (zset : after.zset = redis.zset) : stage.Fits after jobID := by
  obtain ⟨location, placed, live⟩ := fits
  exact ⟨location, placed.congr list zset, live⟩

/-- A job that moves stays in one place. -/
theorem moved (fits : stage.Fits redis jobID)
    (moves : ∀ location, redis.Placed jobID location →
      ∃ place, after.Placed jobID place ∧ place.isSome = location.isSome) :
    stage.Fits after jobID := by
  obtain ⟨location, placed, live⟩ := fits
  obtain ⟨place, there, same⟩ := moves location placed
  exact ⟨place, there, by rw [same]; exact live⟩

/-- An enqueuer puts the job into its place when it enqueues it. -/
theorem enqueuer {call : Enqueuer.Call} (fits : stage.Fits state.redis jobID)
    (once : ∀ enqueued ∈ (Event.enqueuer call).enqueues?, enqueued.1 = jobID → stage = .fresh)
    (plain : NonUnique jobID state (.enqueuer call)) :
    (stage.observe deployment jobID state (.enqueuer call) next).Fits
      (Enqueuer.execute deployment.ns state.redis call) jobID := by
  obtain ⟨location, placed, live⟩ := fits
  have absent : stage = .fresh → location = none := by
    rintro rfl
    cases location with
    | none => rfl
    | some place => exact nomatch live.mp rfl
  cases call with
  | enqueue name id now args =>
      simp only [observe, Enqueuer.execute]
      by_cases own : id = jobID
      · rw [absent (once _ rfl own)] at placed
        rw [if_pos own]
        refine ⟨_, placed.lpush_own ?_, by simp⟩
        exact (hasID_serialize _).trans (decide_eq_true own)
      · rw [if_neg own]
        refine ⟨_, placed.lpush_other ?_, live⟩
        exact (hasID_serialize _).trans (decide_eq_false own)
  | enqueueAt name id now args epochSeconds =>
      simp only [observe, Enqueuer.execute]
      by_cases own : id = jobID
      · rw [absent (once _ rfl own)] at placed
        rw [if_pos own]
        refine ⟨_, placed.zadd_own ?_, by simp⟩
        exact (hasID_serialize _).trans (decide_eq_true own)
      · rw [if_neg own]
        refine ⟨_, placed.zadd_other ?_, live⟩
        exact (hasID_serialize _).trans (decide_eq_false own)
  | enqueueUnique name id now args keyMap runAt =>
      have other : id ≠ jobID := fun own => nomatch (plain.2 _ rfl own).2
      have foreign : (RawJSON.json (Enqueuer.uniqueJob deployment.ns name id now args
          keyMap).serialize).hasID jobID = false :=
        (hasID_serialize _).trans (decide_eq_false other)
      have keyed : ∀ key value, (state.redis.setUnique key value).Placed jobID location :=
        fun _ _ => placed.congr rfl rfl
      refine ⟨location, ?_, live⟩
      exact Enqueuer.execute_unique_rec rfl rfl (keyed _ _) ((keyed _ _).lpush_other foreign)
        (fun _ => (keyed _ _).zadd_other foreign) runAt
  | addToKnownJobs name => exact ⟨location, placed.congr rfl rfl, live⟩

/-- The payloads of dead jobs are ready to be visited by a script. -/
theorem visiting {location : Option Place} (placed : redis.Placed jobID location)
    (traceable : ∀ raw ∈ (redis.zset .dead).members, Store.Traceable jobID raw)
    {raws : List RawJSON} (visited : raws.Sublist (redis.zset .dead).members) :
    Store.Placed.Visiting redis jobID location.isSome raws where
  placed := ⟨location, placed, rfl⟩
  traceable raw member := traceable raw (visited.mem member)
  once := by
    refine visited.countP_le.trans ?_
    change redis.copies jobID (.zset .dead) ≤ 1
    by_cases here : location = some (.zset .dead)
    · exact Nat.le_of_eq ((placed _).1 here)
    · rw [(placed _).2 here]
      exact Nat.zero_le 1
  dead raw member _ := visited.mem member

/-- A client deletes the job, moves it out of the dead jobs or leaves it alone. -/
theorem client {call : Client.Call} (fits : stage.Fits state.redis jobID)
    (traceable : (Event.client call).rewrites? = some .dead →
      ∀ raw ∈ (state.redis.zset .dead).members, Store.Traceable jobID raw)
    (executed : Client.execute state.redis call = some next.redis) :
    (stage.observe deployment jobID state (.client call) next).Fits next.redis jobID := by
  obtain ⟨redis, done⟩ : ∃ redis, next.redis = redis := ⟨_, rfl⟩
  cases Client.execute_cases (executed.trans (congrArg some done)) with
  | @deleted key zscore id =>
      obtain ⟨location, placed, live⟩ := fits
      obtain ⟨fewer, others⟩ := Store.Placed.deleteLoop_copies state.redis jobID _
      simp only [observe]
      by_cases own : id = jobID
      · by_cases changed : next.redis.copies jobID (.zset key) =
            state.redis.copies jobID (.zset key)
        · rw [if_neg (by simp [changed])]
          exact ⟨location, placed.undeleted changed (done ▸ others), live⟩
        · rw [if_pos ⟨own, changed⟩]
          exact ⟨none, placed.deleted (.zset key) changed (done ▸ fewer) (done ▸ others), by simp⟩
      · rw [if_neg (by simp [own]), done]
        exact ⟨location, placed.deleteLoop_other own _, live⟩
  | freed =>
      rw [done]
      exact fits.congr rfl rfl
  | retried which visited run =>
      rw [done]
      obtain ⟨_, _, rfl⟩ | rfl := which <;>
      · refine fits.moved fun location placed => ?_
        exact (visiting placed (traceable rfl) visited).requeueRun run
  | cleared =>
      obtain ⟨location, placed, live⟩ := fits
      have gone : next.redis.copies jobID (.zset .dead) = 0 := by
        rw [done]
        rfl
      have others : ∀ other, other ≠ .zset .dead →
          next.redis.copies jobID other = state.redis.copies jobID other := by
        intro other different
        rw [done]
        cases other with
        | list key => rfl
        | zset key =>
            have apart : key ≠ .dead := fun same => different (by rw [same])
            simp only [Store.copies, Function.update_of_ne apart]
      simp only [observe]
      by_cases present : state.redis.copies jobID (.zset .dead) = 0
      · rw [if_neg (by simp [present])]
        exact ⟨location, placed.undeleted (gone.trans present.symm) others, live⟩
      · rw [if_pos present]
        exact ⟨none, placed.deleted (.zset .dead) (by omega) (by omega) others, by simp⟩

/-- A completing transaction takes the job off its list, and keeps it in a sorted set
unless it is over. -/
theorem finished {id : PoolID} {index : ℕ} {job : FetchedJob} {raw : RawJSON} {finish : Finish}
    {reply : Reply} (fits : stage.Fits state.redis jobID)
    (running : (state.pools id).workers[index]? = some (.running job raw))
    (faithful : Faithful jobID (.running job raw)) (executed : reply ≠ .failed)
    (kept : Worker.Finish.KeepsIdentity finish job.toJob)
    (marshals : job.id = jobID → finish.marshals)
    (listed : raw ∈ state.redis.list job.inProgQueue) :
    (stage.observe deployment jobID state (.pool id (.worker index (.finish finish reply)))
        next).Fits
      (Worker.removeJobFromInProgress state.redis id job.inProgQueue
        (Worker.processJob (deployment.pool id) job.toJob finish).1.name
        (Worker.processJob (deployment.pool id) job.toJob finish).2 raw) jobID := by
  obtain ⟨location, placed, live⟩ := fits
  have sameID : (Worker.processJob (deployment.pool id) job.toJob finish).1.id = job.id :=
    (Worker.processJob_identity kept).2.1
  simp only [observe, runningJob?_of_running running]
  unfold Worker.removeJobFromInProgress
  cases own : raw.hasID jobID with
  | false =>
      have other : job.id ≠ jobID := fun same => by
        rw [faithful.mp same] at own
        cases own
      have removed : ((state.redis.lrem job.inProgQueue raw).releaseLock
          (Worker.processJob (deployment.pool id) job.toJob finish).1.name id).Placed jobID
          location := (placed.lrem_other own).congr rfl rfl
      rw [if_neg (by simp [other])]
      cases fate : (Worker.processJob (deployment.pool id) job.toJob finish).2 with
      | none => exact ⟨location, removed, live⟩
      | some added =>
          obtain ⟨key, score, out⟩ := added
          obtain ⟨rfl, -⟩ := Worker.processJob_written fate
          refine ⟨location, removed.zadd_other ?_, live⟩
          rw [hasID_serialize, sameID]
          exact decide_eq_false other
  | true =>
      have mine : job.id = jobID := faithful.mpr own
      have ends : (Worker.processJob (deployment.pool id) job.toJob finish).2 = none ↔
          Worker.ends (deployment.pool id) job.toJob finish :=
        Worker.processJob_eq_none (marshals mine)
      have present : stage = .live := live.mp (by rw [placed.mem_list own listed]; rfl)
      have removed : ((state.redis.lrem job.inProgQueue raw).releaseLock
          (Worker.processJob (deployment.pool id) job.toJob finish).1.name id).Placed jobID
          none := (placed.lrem_own own listed).congr rfl rfl
      cases fate : (Worker.processJob (deployment.pool id) job.toJob finish).2 with
      | none =>
          rw [if_pos ⟨executed, mine, ends.mp fate⟩]
          exact ⟨none, removed, by simp⟩
      | some added =>
          obtain ⟨key, score, out⟩ := added
          obtain ⟨rfl, -⟩ := Worker.processJob_written fate
          have continues : Worker.ends (deployment.pool id) job.toJob finish = false := by
            by_contra ended
            rw [ends.mpr (Bool.eq_true_of_not_eq_false ended)] at fate
            cases fate
          rw [if_neg (by simp [continues])]
          refine ⟨_, removed.zadd_own ?_, by simp [present]⟩
          rw [hasID_serialize, sameID]
          exact decide_eq_true mine

/-- A step of a worker moves the job along. -/
theorem worker {id : PoolID} {index : ℕ} {workerEvent : Worker.Event}
    {current worker' : Worker.State} (fits : stage.Fits state.redis jobID)
    (present : (state.pools id).workers[index]? = some current)
    (faithful : Faithful jobID current)
    (own : OwnPayloads state (.pool id (.worker index workerEvent)))
    (marshals : ∀ completion ∈ (Event.pool id (.worker index workerEvent)).finish?,
      ∀ job ∈ runningJob? state completion.1 completion.2.1, job.id = jobID →
        completion.2.2.marshals)
    (listed : ∀ job raw, current = .running job raw → raw ∈ state.redis.list job.inProgQueue)
    (moved : Worker.Case deployment.ns (deployment.pool id) id state.redis current workerEvent
      redis worker') :
    (stage.observe deployment jobID state (.pool id (.worker index workerEvent)) next).Fits redis
      jobID := by
  cases moved with
  | @taken order reply name raw rest member executed split =>
      refine fits.moved fun location placed => ?_
      have locked : (state.redis.acquireLock name id).Placed jobID location := placed.congr rfl rfl
      cases mine : raw.hasID jobID with
      | false => exact ⟨location, locked.move_other (by simp) split mine, rfl⟩
      | true =>
          have here : location = some (.list (.jobs name)) :=
            placed.mem_list mine (by rw [split]; simp)
          exact ⟨_, locked.move_own (by simp) split mine, by rw [here]; rfl⟩
  | @finished job raw finish reply executed =>
      exact fits.finished present faithful executed
        (own.2 _ rfl job (runningJob?_of_running present))
        (marshals _ rfl job (runningJob?_of_running present)) (listed job raw rfl)
  | unfinished =>
      simp only [observe, runningJob?_of_running present, ne_eq, not_true_eq_false, false_and,
        ↓reduceIte]
      exact fits
  | deleted | unanswered => exact fits.congr rfl rfl
  | _ => exact fits

/-- Requeueing a job in progress moves it back to its queue. -/
theorem returned {id : PoolID} {name : String} {raw : RawJSON} {rest : List RawJSON}
    (fits : stage.Fits redis jobID) (split : redis.list (.inProgress id name) = rest ++ [raw]) :
    stage.Fits ((redis.move (.inProgress id name) (.jobs name) rest raw).releaseLock name id)
      jobID := by
  refine congr (fits.moved fun location placed => ?_) rfl rfl
  cases mine : raw.hasID jobID with
  | false => exact ⟨location, placed.move_other (by simp) split mine, rfl⟩
  | true =>
      have here : location = some (.list (.inProgress id name)) :=
        placed.mem_list mine (by rw [split]; simp)
      exact ⟨_, placed.move_own (by simp) split mine, by rw [here]; rfl⟩

/-- A step of a reaper moves the job back to its queue or leaves it alone. -/
theorem reaper {curJobTypes : List String} {before later : Reaper.State}
    {reaperEvent : Reaper.Event} (fits : stage.Fits redis jobID)
    (moved : Reaper.Case curJobTypes redis before reaperEvent after later) :
    stage.Fits after jobID := by
  cases moved with
  | requeued member split => exact fits.returned split
  | cleaned =>
      exact Store.redisLuaReapStaleLocks_rec _ _ (fun _ _ => fits.congr rfl rfl) _
  | deleted | removed => exact fits.congr rfl rfl
  | _ => exact fits

end Stage.Fits

/-- What is known of a job along a run. -/
structure Tracked (jobID : String) (state : State) (stage : Stage) : Prop where
  fits : stage.Fits state.redis jobID
  faithful : ∀ id, ∀ worker ∈ (state.pools id).workers, Faithful jobID worker

namespace Tracked

variable {stage : Stage}

theorem fits_step (tracked : Tracked jobID state stage)
    (contract : (identityContract deployment jobID).Everywhere state)
    (holding : Holding deployment state) (distinct : Distinct jobID (state, stage) event)
    (stepped : step deployment state event = some next) :
    (stage.observe deployment jobID state event next).Fits next.redis jobID := by
  obtain ⟨plain, once, _, marshals, fit⟩ := distinct
  have traceable : ∀ key ∈ event.rewrites?, ∀ raw ∈ (state.redis.zset key).members,
      Store.Traceable jobID raw := by
    intro key rewrites raw member
    obtain ⟨name, tagged⟩ := contract.store.zsets key raw member
    refine ⟨tagged.identified, fun own => ⟨name, tagged.named own⟩, ?_⟩
    rintro own document rfl
    exact fit key rewrites _ member own
  have fits := tracked.fits
  cases event with
  | enqueuer call =>
      cases stepped
      exact fits.enqueuer once plain
  | client call =>
      obtain ⟨redis, executed, rfl⟩ := Option.map_eq_some_iff.mp stepped
      exact fits.client (traceable .dead) executed
  | pause name paused =>
      cases stepped
      exact fits.congr rfl rfl
  | push name raw => exact nomatch plain.1.1
  | pool id poolEvent =>
      obtain ⟨pool, pools, moved⟩ := step_pool stepped
      generalize same : next.redis = redis at moved ⊢
      cases moved with
      | @worked index workerEvent current worker' _ alive _ present moved =>
          have member := List.mem_of_getElem? present
          refine fits.worker present (tracked.faithful id _ member) plain.1 marshals ?_ moved
          rintro job raw rfl
          obtain ⟨name, _, progress, _⟩ := contract.workers id _ member
          have running : (state.pools id).phase ≠ .crashed := by
            intro crashed
            rw [crashed] at alive
            cases alive
          rw [progress]
          exact holding.mem_of_taken running member (by rw [Worker.State.taken, progress])
      | reaped _ moved => exact fits.reaper moved
      | returned _ _ _ split => exact fits.returned split
      | @requeued key now _ =>
          exact fits.moved fun location placed =>
            placed.zremLpush key _ now (traceable key rfl)
      | cleaned =>
          split
          · exact Store.redisLuaReapStaleLocks_rec _ _ (fun _ _ => fits.congr rfl rfl) _
          · exact fits
      | capped | added | beat | removed | forgotten =>
          split
          · exact fits.congr rfl rfl
          · exact fits
      | known => exact fits.congr rfl rfl
      | _ => exact fits

theorem step (tracked : Tracked jobID state stage)
    (contract : (identityContract deployment jobID).Everywhere state)
    (holding : Holding deployment state) (distinct : Distinct jobID (state, stage) event)
    (stepped : System.step deployment state event = some next) :
    Tracked jobID next (stage.observe deployment jobID state event next) where
  fits := tracked.fits_step contract holding distinct stepped
  faithful id worker member := by
    rcases step_pool_cases stepped id with ⟨_, same⟩ | ⟨poolEvent, rfl, moved⟩
    · exact tracked.faithful id worker (same ▸ member)
    · by_cases working : ∃ index workerEvent, poolEvent = .worker index workerEvent
      · obtain ⟨index, workerEvent, rfl⟩ := working
        generalize next.pools id = pool at moved member
        generalize next.redis = redis at moved
        cases moved with
        | worked _ _ present moved =>
            rcases List.mem_or_eq_of_mem_set member with old | rfl
            · exact tracked.faithful id worker old
            · have before := List.mem_of_getElem? present
              exact faithful_step contract (contract.workers id _ before)
                (tracked.faithful id _ before) moved
      · rcases moved.workers_eq fun index workerEvent same =>
          working ⟨index, workerEvent, same⟩ with same | ⟨_, idle⟩
        · exact tracked.faithful id worker (same ▸ member)
        · rw [idle worker member]
          exact trivial

theorem initial (begun : Initial state) : Tracked jobID state .fresh where
  fits := by
    refine ⟨none, ?_, by simp⟩
    intro place
    refine ⟨by simp, fun _ => ?_⟩
    cases place with
    | list key => rw [Store.copies, begun.list, List.countP_nil]
    | zset key => rw [Store.copies, begun.zset, SortedSet.members_empty, List.countP_nil]
  faithful id worker member := by
    rw [begun.pools] at member
    exact (List.not_mem_nil member).elim

end Tracked

/-- The system with the stage of a job. -/
def tracking (deployment : Deployment) (jobID : String) : TransitionSystem (State × Stage) Event :=
  (system deployment).monitored .fresh (Stage.observe deployment jobID)

theorem Tracked.reachable {pair : State × Stage}
    (reached : (tracking deployment jobID).Reachable (Distinct jobID) pair) :
    Tracked jobID pair.1 pair.2 := by
  refine reached.monitored_invariant (Tracked jobID) (fun _ begun => Tracked.initial begun) ?_
  intro source stage event target reachedSource tracked distinct stepped
  have reachedPlain : (system deployment).Reachable (NonUnique jobID) source :=
    TransitionSystem.Reachable.of_monitored (reachedSource.mono fun _ _ all => all.1)
  have reachedCrashed : (system deployment).Reachable ReapsCrashed source :=
    TransitionSystem.Reachable.of_monitored (reachedSource.mono fun _ _ all => all.2.2.1)
  exact tracked.step ((identityContract deployment jobID).reachable reachedPlain)
    (Holding.reachable (fun _ _ crashed => crashed) reachedCrashed) distinct stepped

/-- As long as the keys are kept apart, a job that has been enqueued, and has neither ended nor
been deleted, is in exactly one place, exactly once. -/
theorem job_in_one_place {pair : State × Stage}
    (reached : (tracking deployment jobID).Reachable (fun pair event =>
      Distinct jobID pair event ∧ PlainKeys deployment pair.1 event) pair)
    (live : pair.2 = .live) :
    ∃ place, pair.1.redis.copies jobID place = 1 ∧
      ∀ other, other ≠ place → pair.1.redis.copies jobID other = 0 := by
  have tracked := Tracked.reachable (reached.mono fun _ _ both => both.1)
  obtain ⟨location, placed, present⟩ := tracked.fits
  obtain ⟨place, rfl⟩ := Option.isSome_iff_exists.mp (present.mpr live)
  refine ⟨place, (placed place).1 rfl, ?_⟩
  intro other different
  exact (placed other).2 fun same => different (Option.some.inj same).symm

/-- A job is scheduled, requeued, fetched and fails, is requeued and fetched again, and the
pool that runs it crashes and is reaped. -/
def wandering : List Event :=
  boot ["send"] "A" ++ boot ["send"] "B" ++
    [.enqueuer (.enqueueAt "send" "1" 0 none 3), .pool "A" (.requeue .scheduled 5),
      .pool "A" (.worker 0 (.fetch ["send"] .ok)),
      .pool "A" (.worker 0 (.finish
        { after := Enqueuer.plainJob "send" "1" 5 none, marshals := true, error := some "boom",
          failedAt := 6, now := 6, backoff := 1 } .ok)),
      .pool "A" (.requeue .retry 7), .pool "A" (.worker 0 (.fetch ["send"] .ok)),
      .pool "A" .crash] ++
    [.members ["A", "B"] .ok, .heartbeatAt 10 .ok, .jobNames .ok, .heartbeatAt 9 .ok,
      .reap [("A", ["send"])], .requeue .ok].map fun event => .pool "B" (.reaper event)

theorem job_in_one_place_wandering :
    ∃ pair, (tracking single "1").Reachable (fun pair event =>
        Distinct "1" pair event ∧ PlainKeys single pair.1 event) pair ∧ pair.2 = .live ∧
      pair.1.redis.copies "1" (.list (.jobs "send")) = 1 ∧
      ∀ other, other ≠ .list (.jobs "send") → pair.1.redis.copies "1" other = 0 := by
  have run : ∃ pair, (tracking single "1").Reachable (fun pair event =>
        Distinct "1" pair event ∧ PlainKeys single pair.1 event) pair ∧ pair.2 = .live ∧
      pair.1.redis.copies "1" (.list (.jobs "send")) = 1 :=
    TransitionSystem.Reachable.exists_of_run wandering
      (TransitionSystem.initial_monitored initial_emptyState) (by decide +kernel)
  obtain ⟨pair, reached, live, here⟩ := run
  obtain ⟨place, _, others⟩ := job_in_one_place reached live
  have same : .list (.jobs "send") = place := by
    by_contra different
    rw [others _ different] at here
    cases here
  subst same
  exact ⟨pair, reached, live, here, others⟩

/-- A failed job that can no longer be encoded is taken off its list and put nowhere. -/
theorem Tracked.lost {stage : Stage} {id : PoolID} {index : ℕ} {job : FetchedJob} {raw : RawJSON}
    {finish : Finish} (tracked : Tracked jobID state stage)
    (running : (state.pools id).workers[index]? = some (.running job raw)) (own : raw.hasID jobID)
    (listed : raw ∈ state.redis.list job.inProgQueue)
    (registered : ((deployment.pool id).jobType? job.name).isSome)
    (unencodable : finish.marshals = false)
    (stepped : System.step deployment state (.pool id (.worker index (.finish finish .ok))) =
      some next) (place : Place) : next.redis.copies jobID place = 0 := by
  obtain ⟨location, placed, -⟩ := tracked.fits
  obtain ⟨pool, pools, moved⟩ := step_pool stepped
  generalize next.redis = redis at moved ⊢
  cases moved with
  | worked _ _ present moved =>
      obtain rfl := Option.some.inj (running.symm.trans present)
      cases moved with
      | finished =>
          unfold Worker.removeJobFromInProgress
          rw [Worker.processJob_unencodable registered unencodable]
          exact ((placed.lrem_own own listed).congr rfl rfl place).2 (by simp)

/-- Runs as the distinct ones, in which handlers may leave what cannot be encoded. -/
def DistinctUnencoded (jobID : String) (pair : State × Stage) (event : Event) : Prop :=
  NonUnique jobID pair.1 event ∧
    (∀ enqueued ∈ event.enqueues?, enqueued.1 = jobID → pair.2 = .fresh) ∧
    ReapsCrashed pair.1 event ∧ PlainKeys single pair.1 event

instance (pair : State × Stage) (event : Event) : Decidable (DistinctUnencoded jobID pair event) :=
  inferInstanceAs (Decidable (_ ∧ _ ∧ _ ∧ _))

/-- A failed run that leaves arguments that cannot be encoded. -/
def unencodable : Finish where
  after := Enqueuer.plainJob "send" "1" 0 none
  marshals := false
  error := some "boom"
  failedAt := 1
  now := 1
  backoff := 1

/-- A job whose handler fails and leaves arguments that cannot be encoded is nowhere, although
it has retries left and nobody has deleted it. -/
theorem lost_when_unencodable :
    ∃ pair, (tracking single "1").Reachable (DistinctUnencoded "1") pair ∧ pair.2 = .live ∧
      ∀ place, pair.1.redis.copies "1" place = 0 := by
  have run : ∃ pair, (tracking single "1").Reachable (fun pair event =>
        Distinct "1" pair event ∧ PlainKeys single pair.1 event) pair ∧
      (∃ job ∈ runningJob? pair.1 "A" 0,
        (pair.1.pools "A").workers[0]? = some (.running job job.rawJSON) ∧
        job.rawJSON.hasID "1" ∧ job.rawJSON ∈ pair.1.redis.list job.inProgQueue ∧
        ((single.pool "A").jobType? job.name).isSome) ∧
      DistinctUnencoded "1" pair (.pool "A" (.worker 0 (.finish unencodable .ok))) ∧
      ∃ later ∈ (tracking single "1").step pair
          (.pool "A" (.worker 0 (.finish unencodable .ok))), later.2 = .live :=
    TransitionSystem.Reachable.exists_of_run
      (boot ["send"] "A" ++ ([.enqueuer (.enqueue "send" "1" 0 none),
        .pool "A" (.worker 0 (.fetch ["send"] .ok))] : List Event))
      (TransitionSystem.initial_monitored initial_emptyState) (by decide +kernel)
  obtain ⟨pair, reached, ⟨job, -, running, own, listed, registered⟩, allowed, later, stepped,
    live⟩ := run
  have tracked := Tracked.reachable (reached.mono fun _ _ both => both.1)
  have unencoded : (tracking single "1").Reachable (DistinctUnencoded "1") pair :=
    reached.mono fun _ _ both => ⟨both.1.1, both.1.2.1, both.1.2.2.1, both.2⟩
  refine ⟨later, unencoded.step allowed stepped, live, ?_⟩
  have failed : unencodable.marshals = false := rfl
  exact tracked.lost running own listed registered failed
    (TransitionSystem.monitored_step stepped).1

end System
