import WorkQueue.System.Payloads

/-! # Payloads carry the name of their list

A lock is taken under the name of a queue and returned under the name in a payload,
which may have come from a unique key in between. When all payloads are written by the
system and handlers leave the identity of their jobs alone, the two names agree:
every payload on a list carries the name of the list, and its unique key is a key of
that name (`namesContract`).
-/

namespace System

/-- The job that a worker runs. -/
def runningJob? (state : State) (id : PoolID) (index : ℕ) : Option FetchedJob :=
  match (state.pools id).workers[index]? with
  | some (.running job _) => some job
  | _ => none

theorem runningJob?_of_running {state : State} {id : PoolID} {index : ℕ} {job : FetchedJob}
    {raw : RawJSON} (running : (state.pools id).workers[index]? = some (.running job raw)) :
    runningJob? state id index = some job := by
  rw [runningJob?, running]

theorem running_of_runningJob? {state : State} {id : PoolID} {index : ℕ} {job : FetchedJob}
    (found : runningJob? state id index = some job) :
    ∃ raw, (state.pools id).workers[index]? = some (.running job raw) := by
  unfold runningJob? at found
  split at found
  · next other raw present =>
      obtain rfl := Option.some.inj found
      exact ⟨raw, present⟩
  · cases found

/-- Whether an event brings in bytes that the system did not write. -/
def Event.isPush : Event → Bool
  | .push _ _ => true
  | _ => false

/-- The completion of a job: the pool, the worker and how its handler ended. -/
def Event.finish? : Event → Option (PoolID × ℕ × Finish)
  | .pool id (.worker index (.finish finish _)) => some (id, index, finish)
  | _ => none

/-- Only the system itself writes payloads, and handlers leave the identity of their
jobs alone. -/
def OwnPayloads (state : State) (event : Event) : Prop :=
  event.isPush = false ∧ ∀ completion ∈ event.finish?,
    ∀ job ∈ runningJob? state completion.1 completion.2.1,
      Worker.Finish.KeepsIdentity completion.2.2 job.toJob

instance (state : State) (event : Event) : Decidable (OwnPayloads state event) :=
  inferInstanceAs (Decidable (_ ∧ _))

/-- A key that may stand in a payload of a job name. -/
def KeyOf (ns name key : String) : Prop :=
  key = "" ∨ ∃ args, key = redisKeyUniqueJob ns name args

/-- The payload carries the name and a unique key of that name, if any, and doubles no
field. -/
structure Named (ns name : String) (raw : RawJSON) : Prop where
  named : raw.textField "name" = some name
  keyed : ∃ key, raw.textField "unique_key" = some key ∧ KeyOf ns name key
  unambiguous : raw.Unambiguous

/-- The unique key under which a job of a name is looked up is a key of the name. -/
theorem KeyOf.uniqueKey {ns : String} {job : Job} (keyed : KeyOf ns job.name job.uniqueKey) :
    ∃ args, Worker.uniqueKey ns job = redisKeyUniqueJob ns job.name args := by
  unfold Worker.uniqueKey
  split
  · exact ⟨job.args, rfl⟩
  · next nonempty =>
      rcases keyed with empty | key
      · exact (nonempty empty).elim
      · exact key

theorem named_serialize {ns : String} (job : Job) (keyed : KeyOf ns job.name job.uniqueKey) :
    Named ns job.name (.json job.serialize) where
  named := job.textField_serialize_name
  keyed := ⟨job.uniqueKey, job.textField_serialize_uniqueKey, keyed⟩
  unambiguous := job.unambiguous_serialize

/-- A rewriting that keeps the name and the unique key keeps a payload named. -/
theorem Named.rewrite {ns name : String} {raw written : RawJSON} {lua edited : Json}
    (named : Named ns name raw) (decoded : Cjson.decode raw = some lua)
    (encoded : Cjson.encode edited = some written)
    (same : Store.SameIdentity lua edited) : Named ns name written := by
  obtain ⟨nameField, ⟨key, keyField, keyed⟩, unambiguous⟩ := named
  refine ⟨?_, ⟨key, ?_, keyed⟩, ?_⟩
  · rw [Cjson.textField_encode encoded, same.name]
    exact Cjson.textField_decode decoded nameField
  · rw [Cjson.textField_encode encoded, same.uniqueKey]
    exact Cjson.textField_decode decoded keyField
  · exact Cjson.unambiguous_encode encoded
      (same.unambiguous (Cjson.unambiguous_decode decoded unambiguous))

theorem Named.buried {ns name : String} {raw written : RawJSON} {lua : Json} {now : Int64}
    (named : Named ns name raw) (decoded : Cjson.decode raw = some lua)
    (encoded : Cjson.encode (Store.unknownJob now lua) = some written) : Named ns name written :=
  named.rewrite decoded encoded (Store.sameIdentity_unknownJob now lua)

/-- The queue to which a script requeues a payload is the one of its name. -/
theorem Named.queue_eq {ns name queue : String} {raw : RawJSON} {lua : Json}
    (named : Named ns name raw) (decoded : Cjson.decode raw = some lua)
    (queued : (Cjson.index "name" lua).bind Cjson.concat = some queue) : queue = name := by
  obtain ⟨field, indexed, concatenated⟩ := Option.bind_eq_some_iff.mp queued
  exact Cjson.concat_index_eq (Cjson.textField_decode decoded named.named) indexed concatenated

/-- The names of payloads, of the jobs workers hold and of the values of unique keys
agree with where they are found. -/
def namesContract (deployment : Deployment) : PayloadContract deployment OwnPayloads where
  payload := Named deployment.ns
  job name job := job.name = name ∧ KeyOf deployment.ns name job.uniqueKey
  value key raw := raw = .placeholder ∨
    ∃ name args, key = redisKeyUniqueJob deployment.ns name args ∧ Named deployment.ns name raw
  enqueued _ name id now args _ :=
    named_serialize (Enqueuer.plainJob name id now args) (.inl rfl)
  scheduled _ name id now args _ _ :=
    named_serialize (Enqueuer.plainJob name id now args) (.inl rfl)
  enqueuedUnique _ name id now args keyMap _ _ := by
    have named := named_serialize
      (Enqueuer.uniqueJob deployment.ns name id now args keyMap) (.inr ⟨_, rfl⟩)
    refine ⟨named, ?_⟩
    cases keyMap with
    | none => exact .inl rfl
    | some fields => exact .inr ⟨name, _, rfl, named⟩
  pushed _ _ _ allowed := Bool.noConfusion allowed.1
  decoded name raw source target fetched named decoded := by
    obtain ⟨nameField, ⟨key, keyField, keyed⟩, unambiguous⟩ := named
    obtain ⟨names, -, keys⟩ := newJob_textField unambiguous decoded
    rw [nameField] at names
    rw [keyField] at keys
    exact ⟨(Option.some.inj names).symm, Option.some.inj keys ▸ keyed⟩
  updated name original raw source target fetched held valued updating decoded := by
    obtain ⟨rfl, keyed⟩ := held
    rcases valued with placeholder | ⟨other, args, key, named⟩
    · exact (updating placeholder).elim
    · obtain ⟨own, same⟩ := keyed.uniqueKey
      have agree : original.name = other := redisKeyUniqueJob_name (same.symm.trans key)
      obtain ⟨nameField, ⟨found, keyField, foundKeyed⟩, unambiguous⟩ := named
      obtain ⟨names, -, keys⟩ := newJob_textField unambiguous decoded
      rw [nameField] at names
      rw [keyField] at keys
      exact ⟨(Option.some.inj names).symm.trans agree.symm,
        agree ▸ Option.some.inj keys ▸ foundKeyed⟩
  failed state id index name fetched raw finish reply key score written running allowed held
      fate := by
    obtain ⟨rfl, keyed⟩ := held
    have kept := allowed.2 _ rfl fetched (runningJob?_of_running running)
    obtain ⟨sameName, -, -, sameKey⟩ := Worker.processJob_identity kept
    obtain ⟨rfl, -⟩ := Worker.processJob_written fate
    exact ⟨_, named_serialize _ (by rw [sameName, sameKey]; exact keyed)⟩
  requeued _ _ _ now name raw lua other written _ _ named decoded queued encoded := by
    rw [named.queue_eq decoded queued]
    exact named.rewrite decoded encoded (Store.sameIdentity_requeuedJob now lua)
  buried _ _ _ _ name _ _ _ _ _ named decoded _ _ encoded := ⟨name, named.buried decoded encoded⟩
  revived _ _ name raw lua other now written _ named decoded queued encoded := by
    rw [named.queue_eq decoded queued]
    exact named.rewrite decoded encoded (Store.sameIdentity_revivedJob now lua)
  kept _ _ name _ _ _ _ _ named decoded encoded := ⟨name, named.buried decoded encoded⟩

end System
