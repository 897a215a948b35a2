import WorkQueue.Payload.Detour
import WorkQueue.Accounting.Names

/-! # Jobs that went through a sorted set

A job on the retry or scheduled set, or among the dead jobs, is decoded and encoded by the
script that moves it to its queue. The worker that fetches it there sees the same job, up
to the time of enqueueing and the cleared failures, exactly when its arguments survive the
detour and its integers are short (`same_after_detour_iff`). An empty array comes back as
an object, and a number loses the digits after the fourteenth.
-/

namespace Job

/-- The arguments survive a detour, and all integers that a script writes are short. -/
def SurvivesRequeue (now : Int64) (job : Job) : Prop :=
  Cjson.survives (encodeArgs job.args) ∧ Cjson.Short now ∧ Cjson.Short job.fails ∧
    Cjson.Short job.failedAt

instance (now : Int64) (job : Job) : Decidable (SurvivesRequeue now job) :=
  inferInstanceAs (Decidable (_ ∧ _))

/-- The arguments survive a detour, and the time is short. -/
def SurvivesRevival (now : Int64) (job : Job) : Prop :=
  Cjson.survives (encodeArgs job.args) ∧ Cjson.Short now

instance (now : Int64) (job : Job) : Decidable (SurvivesRevival now job) :=
  inferInstanceAs (Decidable (_ ∧ _))

/-- What a script writes for a job that it requeues. -/
def requeuedBytes (now : Int64) (job : Job) : RawJSON :=
  .json (Cjson.encodeValue (Store.requeuedJob now (Cjson.decodeValue job.serialize)))

/-- What a script writes for a dead job that it requeues. -/
def revivedBytes (now : Int64) (job : Job) : RawJSON :=
  .json (Cjson.encodeValue (Store.revivedJob now (Cjson.decodeValue job.serialize)))

variable {job : Job} {now : Int64}

/-- The numbers of an encoded job are doubles when those of its arguments are. -/
theorem numbersFit_serialize (fit : (encodeArgs job.args).numbersFit) :
    job.serialize.numbersFit := by
  have integer : ∀ value : Int64, (Json.num (.int value.toInt)).numbersFit := fun value =>
    Float64.fits_int64 value
  have omitted : ∀ empty key value, value.numbersFit →
      (omitEmpty empty key value).all fun field => field.2.numbersFit := by
    intro empty key value inside
    cases empty with
    | true => rfl
    | false => simpa [omitEmpty] using inside
  rw [serialize, Json.numbersFit_obj]
  simp only [fields, List.all_append, List.all_cons, List.all_nil, Bool.and_eq_true]
  refine ⟨⟨⟨⟨⟨⟨omitted _ _ _ rfl, rfl, integer _, fit, trivial⟩, omitted _ _ _ rfl⟩,
    omitted _ _ _ rfl⟩, omitted _ _ _ (integer _)⟩, omitted _ _ _ rfl⟩, omitted _ _ _ (integer _)⟩

/-- Decoding a job whose fields have taken a detour, except for the time and the
failures. -/
theorem decode_detour {written : Json} {fields : List (String × Json)}
    (object : written = .obj fields) (unambiguous : written.Unambiguous)
    (time : written.field "t" = some (Cjson.encodeValue (Cjson.toNumber now)))
    (kept : ∀ key ∈ ["name", "id", "args", "unique", "unique_key"],
      written.field key = (Json.getField key job.fields).map Cjson.detour) :
    decode written = if Cjson.Short now then (do
        let args ← decodeArgs (some (Cjson.detour (encodeArgs job.args)))
        let fails ← decodeInt64 (written.field "fails")
        let lastErr ← decodeString (written.field "err")
        let failedAt ← decodeInt64 (written.field "failed_at")
        some { job with enqueuedAt := now, args, fails, lastErr, failedAt })
      else none := by
  subst object
  simp only [List.mem_cons, List.not_mem_nil, or_false, forall_eq_or_imp, forall_eq, Json.field]
    at kept time ⊢
  obtain ⟨name, id, args, unique, uniqueKey⟩ := kept
  rw [decode_obj unambiguous]
  simp only [name, id, args, unique, uniqueKey, time, getField_name, getField_id, getField_args,
    getField_unique, getField_uniqueKey, Cjson.decodeString_detour, Cjson.decodeInt64_detour,
    Cjson.decodeBool_detour_omitted, decodeString_omitted, Option.map_some, Option.bind_eq_bind,
    Option.bind_some]
  split
  · rfl
  · rfl

/-- A field that scripts do not edit has taken a detour. -/
theorem field_requeued {key : String} (other : key ≠ "t") :
    (Cjson.encodeValue (Store.requeuedJob now (Cjson.decodeValue job.serialize))).field key =
      (Json.getField key job.fields).map Cjson.detour := by
  rw [Cjson.field_encodeValue, Store.requeuedJob, Cjson.field_setField other,
    Cjson.field_decodeValue, Option.map_map]
  rfl

/-- What a script writes for a requeued job reads as the job, enqueued now, if and only if
the job survives. -/
theorem decode_requeued_iff (fit : (encodeArgs job.args).numbersFit) :
    decode (Cjson.encodeValue (Store.requeuedJob now (Cjson.decodeValue job.serialize))) =
      some { job.normalise with enqueuedAt := now } ↔ SurvivesRequeue now job := by
  have object : ∃ fields, Cjson.encodeValue (Store.requeuedJob now
      (Cjson.decodeValue job.serialize)) = .obj fields :=
    ⟨_, by rw [serialize, Cjson.decodeValue_obj]; exact Cjson.encodeValue_obj _⟩
  obtain ⟨fields, object⟩ := object
  have time : (Cjson.encodeValue (Store.requeuedJob now (Cjson.decodeValue job.serialize))).field
      "t" = some (Cjson.encodeValue (Cjson.toNumber now)) := by
    rw [Cjson.field_encodeValue, Store.requeuedJob, serialize, Cjson.decodeValue_obj,
      Cjson.setField, Json.field, Json.getField_setField_self]
    rfl
  have unambiguous := Cjson.unambiguous_encodeValue
    ((Store.sameIdentity_requeuedJob now _).unambiguous
      (Cjson.unambiguous_decodeValue job.unambiguous_serialize))
  rw [decode_detour object unambiguous time fun key member =>
      field_requeued (by rintro rfl; simp at member),
    field_requeued (by decide), field_requeued (by decide), field_requeued (by decide),
    getField_fails, getField_err, getField_failedAt, Cjson.decodeInt64_detour_omitted,
    Cjson.decodeInt64_detour_omitted, Cjson.decodeString_detour, decodeString_omitted,
    SurvivesRequeue, ← Cjson.decodeArgs_detour_iff job fit]
  generalize decodeArgs (some (Cjson.detour (encodeArgs job.args))) = decoded
  by_cases time : Cjson.Short now
  · by_cases fails : Cjson.Short job.fails
    · by_cases failedAt : Cjson.Short job.failedAt
      · cases decoded <;> simp [time, fails, failedAt, normalise]
      · cases decoded <;> simp [time, fails, failedAt]
    · cases decoded <;> simp [time, fails]
  · simp [time]

/-- A field that scripts do not edit has taken a detour. -/
theorem field_revived {key : String} (time : key ≠ "t") (fails : key ≠ "fails")
    (failedAt : key ≠ "failed_at") (err : key ≠ "err") :
    (Cjson.encodeValue (Store.revivedJob now (Cjson.decodeValue job.serialize))).field key =
      (Json.getField key job.fields).map Cjson.detour := by
  rw [Cjson.field_encodeValue, Store.revivedJob, Cjson.field_removeField err,
    Cjson.field_removeField failedAt, Cjson.field_removeField fails, Cjson.field_setField time,
    Cjson.field_decodeValue, Option.map_map]
  rfl

/-- What a script writes for a requeued dead job reads as the job without failures,
enqueued now, if and only if the job survives. -/
theorem decode_revived_iff (fit : (encodeArgs job.args).numbersFit) :
    decode (Cjson.encodeValue (Store.revivedJob now (Cjson.decodeValue job.serialize))) =
      some { job.normalise with enqueuedAt := now, fails := 0, lastErr := "", failedAt := 0 } ↔
        SurvivesRevival now job := by
  have object : ∃ fields, Cjson.encodeValue (Store.revivedJob now
      (Cjson.decodeValue job.serialize)) = .obj fields :=
    ⟨_, by rw [serialize, Cjson.decodeValue_obj]; exact Cjson.encodeValue_obj _⟩
  obtain ⟨fields, object⟩ := object
  have time : (Cjson.encodeValue (Store.revivedJob now (Cjson.decodeValue job.serialize))).field
      "t" = some (Cjson.encodeValue (Cjson.toNumber now)) := by
    rw [Cjson.field_encodeValue, Store.revivedJob, Cjson.field_removeField (by decide),
      Cjson.field_removeField (by decide), Cjson.field_removeField (by decide), serialize,
      Cjson.decodeValue_obj, Cjson.setField, Json.field, Json.getField_setField_self]
    rfl
  have cleared : ∀ key ∈ ["fails", "err", "failed_at"],
      (Cjson.encodeValue (Store.revivedJob now (Cjson.decodeValue job.serialize))).field key =
        none := by
    simp [Cjson.field_encodeValue, Store.revivedJob, Cjson.field_removeField,
      Cjson.field_removeField_self]
  have unambiguous := Cjson.unambiguous_encodeValue
    ((Store.sameIdentity_revivedJob now _).unambiguous
      (Cjson.unambiguous_decodeValue job.unambiguous_serialize))
  rw [decode_detour object unambiguous time fun key member =>
      field_revived (by rintro rfl; simp at member) (by rintro rfl; simp at member)
        (by rintro rfl; simp at member) (by rintro rfl; simp at member),
    cleared "fails" (by simp), cleared "err" (by simp), cleared "failed_at" (by simp),
    SurvivesRevival, ← Cjson.decodeArgs_detour_iff job fit]
  generalize decodeArgs (some (Cjson.detour (encodeArgs job.args))) = decoded
  by_cases time : Cjson.Short now
  · cases decoded <;> simp [time, normalise, decodeInt64, decodeString]
  · simp [time]

end Job

namespace Store

variable {known : List String} {now : Int64} {raw pushed : RawJSON} {lua : Json} {name : String}

/-- Every payload on a list stays there. -/
def Retains (before after : Store) : Prop :=
  ∀ key, ∀ raw ∈ before.list key, raw ∈ after.list key

theorem Retains.requeueDeadJob (store : Store) (known : List String) (now : Int64)
    (raw : RawJSON) (lua : Json) : Retains store (store.requeueDeadJob known now raw lua).1 := by
  have outcome := store.requeueDeadJob_cases known now raw lua
  generalize store.requeueDeadJob known now raw lua = result at outcome ⊢
  cases outcome with
  | @revived name pushed _ _ _ =>
      intro key other member
      by_cases same : key = .jobs name
      · subst same
        rw [list_lpush_self]
        exact List.mem_cons_of_mem _ member
      · rw [list_lpush_of_ne same]
        exact member
  | _ => exact fun _ _ member => member

/-- A dead job of a known name is pushed on its queue. -/
theorem requeueDeadJob_of_known (store : Store) (raw : RawJSON)
    (named : (Cjson.index "name" lua).bind Cjson.concat = some name) (registered : name ∈ known)
    (encoded : Cjson.encode (revivedJob now lua) = some pushed) :
    store.requeueDeadJob known now raw lua =
      ((store.zrem .dead raw).lpush (.jobs name) pushed, some 1) := by
  simp only [requeueDeadJob, named, registered, ↓reduceIte, encoded]

theorem Retains.requeueRun {raws : List RawJSON} {store next : Store}
    (run : RequeueRun known now raws store next) : Retains store next := by
  induction run with
  | done => exact fun _ _ member => member
  | skipped _ ih => exact ih
  | @requeued raw raws store next lua _ _ ih =>
      intro key other member
      exact ih key other (Retains.requeueDeadJob store known now raw lua key other member)

/-- A script that requeues dead jobs pushes every one that it wants and of a known name. -/
theorem mem_requeueLoop {wanted : Json → Option Bool} {raws : List RawJSON} {store : Store}
    {count : ℕ} (completed : (requeueLoop known now wanted raws store count).2.isSome)
    (member : raw ∈ raws) (decoded : Cjson.decode raw = some lua)
    (accepted : wanted lua = some true)
    (named : (Cjson.index "name" lua).bind Cjson.concat = some name) (registered : name ∈ known)
    (encoded : Cjson.encode (revivedJob now lua) = some pushed) :
    pushed ∈ (requeueLoop known now wanted raws store count).1.list (.jobs name) := by
  induction raws generalizing store count with
  | nil => exact (List.not_mem_nil member).elim
  | cons first raws ih =>
      rcases List.mem_cons.mp member with rfl | later
      · simp only [requeueLoop, decoded, accepted,
          requeueDeadJob_of_known store raw named registered encoded]
        refine Retains.requeueRun (requeueRun_requeueLoop wanted raws _) _ _ ?_
        rw [list_lpush_self]
        exact List.mem_cons_self
      · unfold requeueLoop at completed ⊢
        split at completed
        · cases completed
        · split at completed
          · cases completed
          · split at completed
            · exact ih completed later
            · cases completed
          · exact ih completed later

end Store

/-- What scripts find in the payload of a job and write for it. -/
structure Job.Rewritten (job : Job) (now : Int64) : Prop where
  decoded : Cjson.decode (.json job.serialize) = some (Cjson.decodeValue job.serialize)
  named : (Cjson.index "name" (Cjson.decodeValue job.serialize)).bind Cjson.concat = some job.name
  identified : Cjson.index "id" (Cjson.decodeValue job.serialize) = some (some (.str job.id))
  requeued : Cjson.encode (Store.requeuedJob now (Cjson.decodeValue job.serialize)) =
    some (job.requeuedBytes now)
  revived : Cjson.encode (Store.revivedJob now (Cjson.decodeValue job.serialize)) =
    some (job.revivedBytes now)

/-- Scripts can rewrite a named job that is not nested too deeply. -/
theorem Job.rewritten {job : Job} (named : job.name ≠ "")
    (shallow : Cjson.depth job.serialize ≤ Cjson.maxDepth)
    (fit : (Job.encodeArgs job.args).numbersFit) (now : Int64) : job.Rewritten now := by
  have decoded : Cjson.decode (.json job.serialize) = some (Cjson.decodeValue job.serialize) :=
    if_pos shallow
  obtain ⟨indexed, encodable⟩ := Cjson.index_and_encodable_of_decode decoded
    job.textField_serialize_name named fun document same => by
      rw [← RawJSON.json.inj same]
      exact Job.numbersFit_serialize fit
  refine ⟨decoded, indexed, ?_, (Store.encodable_requeuedJob encodable now).encode_eq,
    (Store.encodable_revivedJob encodable now).encode_eq⟩
  rw [Job.serialize, Cjson.decodeValue_obj, Cjson.index, Json.getField_map_values,
    Json.getField_lastFields, job.getField_id]
  rfl

namespace System

/-- A worker sees the same job, up to the time of enqueueing and cleared failures, after
the job has been moved to its queue from one of the sorted sets, if and only if the job
survives. -/
theorem same_after_detour_iff (job : Job) (named : job.name ≠ "")
    (shallow : Cjson.depth job.serialize ≤ Cjson.maxDepth)
    (fit : (Job.encodeArgs job.args).numbersFit) (now : Int64) {known : List String}
    (registered : job.name ∈ known) (source target : ListKey) :
    ∃ original, (newJob (.json job.serialize) source target).map FetchedJob.toJob = some original ∧
      (∀ (store : Store) (key : ZSetKey),
        ((store.zset key).upTo now.toInt).head? = some (.json job.serialize) →
        (store.redisLuaZremLpushCmd key known now).1 =
          (store.zrem key (.json job.serialize)).lpush (.jobs job.name) (job.requeuedBytes now)) ∧
      ((newJob (job.requeuedBytes now) source target).map FetchedJob.toJob =
        some { original with enqueuedAt := now } ↔ job.SurvivesRequeue now) ∧
      (∀ (store : Store) (diedAt : Int64),
        .json job.serialize ∈ (store.zset .dead).withScore diedAt.toInt →
        (store.redisLuaRequeueSingleDeadCmd known now diedAt job.id).2.isSome →
        job.revivedBytes now ∈
          (store.redisLuaRequeueSingleDeadCmd known now diedAt job.id).1.list (.jobs job.name)) ∧
      (∀ (store : Store) (limit : ℕ),
        .json job.serialize ∈ ((store.zset .dead).upTo now.toInt).take limit →
        (store.redisLuaRequeueAllDeadCmd known now limit).2.isSome →
        job.revivedBytes now ∈
          (store.redisLuaRequeueAllDeadCmd known now limit).1.list (.jobs job.name)) ∧
      ((newJob (job.revivedBytes now) source target).map FetchedJob.toJob =
        some { original with enqueuedAt := now, fails := 0, lastErr := "", failedAt := 0 } ↔
          job.SurvivesRevival now) := by
  have rewritten := job.rewritten named shallow fit now
  refine ⟨job.normalise, (toJob_newJob ..).trans (job.decode_serialize fit), ?_, ?_, ?_, ?_, ?_⟩
  · intro store key due
    simp only [Store.redisLuaZremLpushCmd, due, rewritten.decoded, rewritten.named, registered,
      ↓reduceIte, rewritten.requeued]
  · rw [Job.requeuedBytes, toJob_newJob]
    exact Job.decode_requeued_iff fit
  · intro store diedAt member completed
    refine Store.mem_requeueLoop completed member rewritten.decoded ?_ rewritten.named registered
      rewritten.revived
    rw [Store.sameID, rewritten.identified, Option.map_some, decide_eq_true rfl]
  · intro store limit member completed
    exact Store.mem_requeueLoop completed member rewritten.decoded rfl rewritten.named registered
      rewritten.revived
  · rw [Job.revivedBytes, toJob_newJob]
    exact Job.decode_revived_iff fit

/-- A failed job with nested arguments. -/
def nestedJob : Job where
  name := "send"
  id := "1"
  args := some [("to", .arr [.num (.int 1), .obj [("cc", .null)]]), ("urgent", .bool true),
    ("amount", .num (.int (-12345678901234)))]
  fails := 2
  lastErr := "failed"
  failedAt := 1699999999

theorem same_after_detour_nested :
    ∃ original, (newJob (.json nestedJob.serialize) (.jobs "send") (.inProgress "A" "send")).map
        FetchedJob.toJob = some original ∧
      (newJob (nestedJob.requeuedBytes 1700000000) (.jobs "send") (.inProgress "A" "send")).map
        FetchedJob.toJob = some { original with enqueuedAt := 1700000000 } ∧
      (newJob (nestedJob.revivedBytes 1700000000) (.jobs "send") (.inProgress "A" "send")).map
        FetchedJob.toJob = some { original with
          enqueuedAt := 1700000000, fails := 0, lastErr := "", failedAt := 0 } := by
  have registered : nestedJob.name ∈ ["send"] := by decide
  obtain ⟨original, direct, _, requeued, _, _, revived⟩ :=
    same_after_detour_iff nestedJob (by decide) (by decide +kernel) (by decide +kernel) 1700000000
      registered (.jobs "send") (.inProgress "A" "send")
  exact ⟨original, direct, requeued.mpr (by decide +kernel), revived.mpr (by decide +kernel)⟩

/-- A job with one argument is scheduled and requeued. -/
def scheduledOnce (argument : Json) : List Event :=
  boot ["send"] "A" ++ [.enqueuer (.enqueueAt "send" "1" 0 (some [("x", argument)]) 5),
    .pool "A" (.requeue .scheduled 5)]

theorem arguments_changed_by_detour :
    [(Json.arr [], Json.obj []),
      (.num (.int 123456789012345), .num (.int 123456789012340))].Forall fun change =>
    ((newJob (.json (Enqueuer.plainJob "send" "1" 0 (some [("x", change.1)])).serialize)
        (.jobs "send") (.inProgress "A" "send")).map fun job => job.args) =
      some (some [("x", change.1)]) ∧
    ∃ state, (system single).Reachable OwnPayloads state ∧
      (state.redis.list (.jobs "send")).map (fun raw =>
          (newJob raw (.jobs "send") (.inProgress "A" "send")).map fun job => job.args) =
        [some (some [("x", change.2)])] := by
  refine ⟨⟨by decide +kernel, ?_⟩, ⟨by decide +kernel, ?_⟩⟩
  · exact TransitionSystem.Reachable.exists_of_run (scheduledOnce (.arr [])) initial_emptyState
      (by decide +kernel)
  · exact TransitionSystem.Reachable.exists_of_run (scheduledOnce (.num (.int 123456789012345)))
      initial_emptyState (by decide +kernel)

end System
