import WorkQueue.System

/-! # What holds of every payload

Payloads enter the system when a job is enqueued and are rewritten by workers and
scripts. A payload contract states a property of the payloads on the lists of a job
name, one of the jobs that workers hold for that name and one of the values of unique
keys, together with the ways in which payloads are written: each of them keeps the
three properties. Then the properties hold in every reachable state
(`PayloadContract.reachable`).
-/

/-- The job name whose payloads a list holds. -/
def ListKey.name : ListKey → String
  | .jobs name => name
  | .inProgress _ name => name

namespace System

/-- Properties of payloads, jobs and values of unique keys that every way of writing
them keeps, within a scope. -/
structure PayloadContract (deployment : Deployment) (scope : State → Event → Prop) where
  payload : String → RawJSON → Prop
  job : String → Job → Prop
  value : String → RawJSON → Prop
  enqueued : ∀ state name id now args,
    scope state (.enqueuer (.enqueue name id now args)) →
    payload name (.json (Enqueuer.plainJob name id now args).serialize)
  scheduled : ∀ state name id now args epochSeconds,
    scope state (.enqueuer (.enqueueAt name id now args epochSeconds)) →
    payload name (.json (Enqueuer.plainJob name id now args).serialize)
  enqueuedUnique : ∀ state name id now args keyMap runAt,
    scope state (.enqueuer (.enqueueUnique name id now args keyMap runAt)) →
    payload name (.json (Enqueuer.uniqueJob deployment.ns name id now args keyMap).serialize) ∧
      value (Enqueuer.uniqueJob deployment.ns name id now args keyMap).uniqueKey
        (Enqueuer.updatedValue keyMap
          (Enqueuer.uniqueJob deployment.ns name id now args keyMap))
  pushed : ∀ state name raw, scope state (.push name raw) → payload name raw
  decoded : ∀ name raw source target fetched, payload name raw →
    newJob raw source target = some fetched → job name fetched.toJob
  updated : ∀ name original raw source target fetched, job name original →
    value (Worker.uniqueKey deployment.ns original) raw → raw ≠ .placeholder →
    newJob raw source target = some fetched → job name fetched.toJob
  failed : ∀ state id index name fetched raw finish reply key score written,
    (state.pools id).workers[index]? = some (.running fetched raw) →
    scope state (.pool id (.worker index (.finish finish reply))) → job name fetched.toJob →
    (Worker.processJob (deployment.pool id) fetched.toJob finish).2 =
      some (key, score, written) → ∃ other, payload other written
  requeued : ∀ state id key now name raw lua other written,
    scope state (.pool id (.requeue key now)) → raw ∈ (state.redis.zset key).members →
    payload name raw → Cjson.decode raw = some lua →
    (Cjson.index "name" lua).bind Cjson.concat = some other →
    Cjson.encode (Store.requeuedJob now lua) = some written → payload other written
  buried : ∀ state id key now name raw lua other written,
    scope state (.pool id (.requeue key now)) → payload name raw → Cjson.decode raw = some lua →
    (Cjson.index "name" lua).bind Cjson.concat = some other →
    other ∉ (deployment.pool id).names →
    Cjson.encode (Store.unknownJob now lua) = some written → ∃ other, payload other written
  revived : ∀ state call name raw lua other now written, scope state (.client call) →
    payload name raw → Cjson.decode raw = some lua →
    (Cjson.index "name" lua).bind Cjson.concat = some other →
    Cjson.encode (Store.revivedJob now lua) = some written → payload other written
  kept : ∀ state call name raw lua now written, scope state (.client call) →
    payload name raw → Cjson.decode raw = some lua →
    Cjson.encode (Store.unknownJob now lua) = some written → ∃ other, payload other written

namespace PayloadContract

variable {deployment : Deployment} {scope : State → Event → Prop}
  (contract : PayloadContract deployment scope)

/-- The properties hold of everything in the store. -/
structure InStore (redis : Store) : Prop where
  lists : ∀ key raw, raw ∈ redis.list key → contract.payload key.name raw
  zsets : ∀ key raw, raw ∈ (redis.zset key).members → ∃ name, contract.payload name raw
  unique : ∀ key raw, redis.unique key = some raw → contract.value key raw

/-- A job that a worker of the pool holds, with the lists it was taken from. -/
def Held (id : PoolID) (fetched : FetchedJob) : Prop :=
  ∃ name, fetched.dequeuedFrom = .jobs name ∧ fetched.inProgQueue = .inProgress id name ∧
    contract.job name fetched.toJob

/-- The properties hold of what a worker holds. -/
def AtWorker (id : PoolID) : Worker.State → Prop
  | .idle | .stopped => True
  | .fetched job => contract.Held id job
  | .gotUnique job raw =>
      contract.Held id job ∧ contract.value (Worker.uniqueKey deployment.ns job.toJob) raw
  | .running job _ => contract.Held id job

/-- The properties hold everywhere. -/
structure Everywhere (state : State) : Prop where
  store : contract.InStore state.redis
  workers : ∀ id, ∀ worker ∈ (state.pools id).workers, contract.AtWorker id worker

namespace InStore

variable {contract} {redis : Store}

theorem congr (holds : contract.InStore redis) {other : Store} (list : other.list = redis.list)
    (zset : other.zset = redis.zset) (unique : other.unique = redis.unique) :
    contract.InStore other := by
  refine ⟨?_, ?_, ?_⟩
  · rw [list]
    exact holds.lists
  · rw [zset]
    exact holds.zsets
  · rw [unique]
    exact holds.unique

theorem lpush (holds : contract.InStore redis) {key : ListKey} {raw : RawJSON}
    (written : contract.payload key.name raw) : contract.InStore (redis.lpush key raw) := by
  refine ⟨?_, holds.zsets, holds.unique⟩
  intro other element member
  by_cases same : other = key
  · subst same
    simp only [Store.lpush, Function.update_self, List.mem_cons] at member
    rcases member with rfl | present
    · exact written
    · exact holds.lists other element present
  · simp only [Store.lpush, Function.update_of_ne same] at member
    exact holds.lists other element member

theorem move (holds : contract.InStore redis) {source target : ListKey} {rest : List RawJSON}
    {raw : RawJSON} (same : source.name = target.name)
    (split : redis.list source = rest ++ [raw]) :
    contract.InStore (redis.move source target rest raw) := by
  have member : ∀ element ∈ rest ++ [raw], contract.payload source.name element := by
    rw [← split]
    exact holds.lists source
  refine ⟨?_, holds.zsets, holds.unique⟩
  intro other element present
  simp only [Store.move] at present
  by_cases atTarget : other = target
  · subst atTarget
    rw [Function.update_self, List.mem_cons] at present
    rcases present with rfl | older
    · exact same ▸ member element (List.mem_append_right _ (List.mem_singleton_self _))
    · exact holds.lists other element older
  · rw [Function.update_of_ne atTarget] at present
    by_cases atSource : other = source
    · subst atSource
      rw [Function.update_self] at present
      exact member element (List.mem_append_left _ present)
    · rw [Function.update_of_ne atSource] at present
      exact holds.lists other element present

theorem lrem (holds : contract.InStore redis) (key : ListKey) (raw : RawJSON) :
    contract.InStore (redis.lrem key raw) := by
  refine ⟨?_, holds.zsets, holds.unique⟩
  intro other element member
  by_cases same : other = key
  · subst same
    simp only [Store.lrem, Function.update_self] at member
    exact holds.lists other element (List.mem_of_mem_erase member)
  · simp only [Store.lrem, Function.update_of_ne same] at member
    exact holds.lists other element member

theorem zadd (holds : contract.InStore redis) (key : ZSetKey) (score : Int) {raw : RawJSON}
    (written : ∃ name, contract.payload name raw) :
    contract.InStore (redis.zadd key score raw) := by
  refine ⟨holds.lists, ?_, holds.unique⟩
  intro other element member
  by_cases same : other = key
  · subst same
    simp only [Store.zadd, Function.update_self, SortedSet.mem_add] at member
    rcases member with rfl | present
    · exact written
    · exact holds.zsets other element present
  · simp only [Store.zadd, Function.update_of_ne same] at member
    exact holds.zsets other element member

theorem zrem (holds : contract.InStore redis) (key : ZSetKey) (raw : RawJSON) :
    contract.InStore (redis.zrem key raw) := by
  refine ⟨holds.lists, ?_, holds.unique⟩
  intro other element member
  by_cases same : other = key
  · subst same
    simp only [Store.zrem, Function.update_self, SortedSet.mem_erase] at member
    exact holds.zsets other element member.2
  · simp only [Store.zrem, Function.update_of_ne same] at member
    exact holds.zsets other element member

theorem setUnique (holds : contract.InStore redis) (key : String) (value : Option RawJSON)
    (written : ∀ raw, value = some raw → contract.value key raw) :
    contract.InStore (redis.setUnique key value) := by
  refine ⟨holds.lists, holds.zsets, ?_⟩
  intro other raw present
  by_cases same : other = key
  · subst same
    simp only [Store.setUnique, Function.update_self] at present
    exact written raw present
  · simp only [Store.setUnique, Function.update_of_ne same] at present
    exact holds.unique other raw present

theorem delUnique (holds : contract.InStore redis) (key : String) :
    contract.InStore (redis.setUnique key none) :=
  holds.setUnique key none fun raw impossible => by cases impossible

theorem reapStaleLocks (holds : contract.InStore redis) (pool : PoolID) (names : List String) :
    contract.InStore (redis.redisLuaReapStaleLocks pool names) :=
  redis.redisLuaReapStaleLocks_rec pool (fun _ _ => holds.congr rfl rfl rfl) names

/-- A requeuer rewrites the first due payload. -/
theorem zremLpush {state : State} {id : PoolID} {key : ZSetKey} {now : Int64}
    (holds : contract.InStore state.redis) (allowed : scope state (.pool id (.requeue key now))) :
    contract.InStore
      (state.redis.redisLuaZremLpushCmd key (deployment.pool id).names now).1 := by
  have listed : ∀ {raw : RawJSON}, ((state.redis.zset key).upTo now.toInt).head? = some raw →
      raw ∈ (state.redis.zset key).members := fun due =>
    SortedSet.mem_of_mem_upTo (List.mem_of_head? due)
  have outcome := state.redis.redisLuaZremLpushCmd_cases key (deployment.pool id).names now
  generalize state.redis.redisLuaZremLpushCmd key (deployment.pool id).names now = result
    at outcome ⊢
  cases outcome with
  | nothing due | undecodable due decoded => exact holds
  | nameless due decoded named | unpushable due decoded named member encoded
  | unburiable due decoded named member encoded => exact holds.zrem key _
  | requeued due decoded named member encoded =>
      obtain ⟨name, written⟩ := holds.zsets key _ (listed due)
      exact (holds.zrem key _).lpush (contract.requeued state id key now name _ _ _ _ allowed
        (listed due) written decoded named encoded)
  | buried due decoded named member encoded =>
      obtain ⟨name, written⟩ := holds.zsets key _ (listed due)
      exact (holds.zrem key _).zadd .dead _ (contract.buried state id key now name _ _ _ _ allowed
        written decoded named member encoded)

/-- Requeueing a dead job rewrites its payload. -/
theorem requeueDeadJob (holds : contract.InStore redis) {state : State} {call : Client.Call}
    (allowed : scope state (.client call)) (known : List String) (now : Int64)
    {raw : RawJSON} {lua : Json} (written : ∃ name, contract.payload name raw)
    (decoded : Cjson.decode raw = some lua) :
    contract.InStore (redis.requeueDeadJob known now raw lua).1 := by
  obtain ⟨name, written⟩ := written
  have outcome := redis.requeueDeadJob_cases known now raw lua
  generalize redis.requeueDeadJob known now raw lua = result at outcome ⊢
  cases outcome with
  | nameless named | unpushable named member encoded | unkeepable named member encoded =>
      exact holds.zrem .dead raw
  | revived named member encoded =>
      exact (holds.zrem .dead raw).lpush
        (contract.revived state call name _ _ _ now _ allowed written decoded named encoded)
  | kept named member encoded =>
      exact (holds.zrem .dead raw).zadd .dead _
        (contract.kept state call name _ _ now _ allowed written decoded encoded)

/-- Requeueing dead jobs rewrites their payloads. -/
theorem requeueRun (holds : contract.InStore redis) {state : State} {call : Client.Call}
    (allowed : scope state (.client call)) {known : List String} {now : Int64}
    {raws : List RawJSON} {next : Store} (run : Store.RequeueRun known now raws redis next)
    (written : ∀ raw ∈ raws, ∃ name, contract.payload name raw) : contract.InStore next := by
  induction run with
  | done => exact holds
  | skipped _ ih => exact ih holds (List.forall_mem_cons.mp written).2
  | requeued decoded _ ih =>
      rw [List.forall_mem_cons] at written
      exact ih (holds.requeueDeadJob allowed known now written.1 decoded) written.2

theorem deleteLoop (holds : contract.InStore redis) {key : ZSetKey} {jobID : String}
    {raws : List RawJSON} (deleted : ℕ × Option RawJSON) :
    contract.InStore (Store.deleteLoop key jobID raws redis deleted).1 :=
  Store.deleteLoop_rec (fun _ raw _ holds => holds.zrem key raw) raws deleted holds

/-- A client rewrites dead payloads and deletes others. -/
theorem client (holds : contract.InStore redis) {state : State} {call : Client.Call}
    {next : Store} (allowed : scope state (.client call))
    (executed : Client.execute redis call = some next) : contract.InStore next := by
  cases Client.execute_cases executed with
  | deleted => exact holds.deleteLoop _
  | freed => exact holds.delUnique _
  | retried _ visited run =>
      exact holds.requeueRun allowed run fun raw member =>
        holds.zsets .dead raw (visited.mem member)
  | cleared =>
      refine ⟨holds.lists, ?_, holds.unique⟩
      intro key raw member
      by_cases same : key = .dead
      · subst same
        simp only [Function.update_self, SortedSet.members_empty, List.not_mem_nil] at member
      · simp only [Function.update_of_ne same] at member
        exact holds.zsets key raw member

/-- An enqueuer writes payloads within the contract. -/
theorem enqueuer (holds : contract.InStore redis) {state : State} {call : Enqueuer.Call}
    (allowed : scope state (.enqueuer call)) :
    contract.InStore (Enqueuer.execute deployment.ns redis call) := by
  cases call with
  | enqueue name id now args => exact holds.lpush (contract.enqueued state name id now args allowed)
  | enqueueAt name id now args epochSeconds =>
      exact holds.zadd .scheduled _
        ⟨name, contract.scheduled state name id now args epochSeconds allowed⟩
  | enqueueUnique name id now args keyMap runAt =>
      obtain ⟨written, valued⟩ :=
        contract.enqueuedUnique state name id now args keyMap runAt allowed
      have keyed := holds.setUnique
        (Enqueuer.uniqueJob deployment.ns name id now args keyMap).uniqueKey
        (some (Enqueuer.updatedValue keyMap
          (Enqueuer.uniqueJob deployment.ns name id now args keyMap)))
        fun raw same => by
          rw [← Option.some.inj same]
          exact valued
      exact Enqueuer.execute_unique_rec rfl rfl keyed (keyed.lpush written)
        (fun _ => keyed.zadd .scheduled _ ⟨name, written⟩) runAt
  | addToKnownJobs name => exact holds.congr rfl rfl rfl

end InStore

section Steps

variable {contract} {redis next : Store} {id : PoolID}

/-- What a worker receives from a list satisfies the contract of that list. -/
theorem atWorker_received {name : String} {raw : RawJSON} (written : contract.payload name raw) :
    contract.AtWorker id (Worker.received
      (some (some (raw, .jobs name, .inProgress id name)))) := by
  rw [Worker.received_some]
  cases decoded : newJob raw (.jobs name) (.inProgress id name) with
  | none => exact trivial
  | some fetched =>
      obtain ⟨-, source, target, -⟩ := newJob_eq_some decoded
      have held : contract.Held id fetched :=
        ⟨name, source, target, contract.decoded name raw _ _ fetched written decoded⟩
      simp only
      split
      · exact held
      · exact held

/-- The job found under a unique key satisfies the contract of the one it replaces. -/
theorem Held.updatedJob {fetched : FetchedJob} {raw : RawJSON} (held : contract.Held id fetched)
    (valued : contract.value (Worker.uniqueKey deployment.ns fetched.toJob) raw) :
    contract.Held id (Worker.updatedJob fetched raw) := by
  unfold Worker.updatedJob
  split
  · exact held
  · next updating =>
      cases decoded : newJob raw fetched.dequeuedFrom fetched.inProgQueue with
      | none => exact held
      | some other =>
          obtain ⟨name, source, target, original⟩ := held
          obtain ⟨-, source', target', -⟩ := newJob_eq_some decoded
          exact ⟨name, source'.trans source, target'.trans target,
            contract.updated name _ raw _ _ other original valued updating decoded⟩

/-- The completing transaction keeps the contract. -/
theorem InStore.removeJobFromInProgress (holds : contract.InStore redis) (inProgQueue : ListKey)
    (jobName : String) {fate : TerminateOp} (raw : RawJSON)
    (written : ∀ key score out, fate = some (key, score, out) → ∃ name, contract.payload name out) :
    contract.InStore
      (Worker.removeJobFromInProgress redis id inProgQueue jobName fate raw) := by
  have released : contract.InStore
      ((redis.lrem inProgQueue raw).releaseLock jobName id) :=
    (holds.lrem inProgQueue raw).congr rfl rfl rfl
  unfold Worker.removeJobFromInProgress
  cases fate with
  | none => exact released
  | some added =>
      obtain ⟨key, score, out⟩ := added
      exact released.zadd key _ (written key score out rfl)

/-- A step of a worker keeps the contract. -/
theorem InStore.worker {state : State} {index : ℕ} {event : Worker.Event}
    {worker worker' : Worker.State} (holds : contract.InStore state.redis)
    (present : (state.pools id).workers[index]? = some worker)
    (atWorker : contract.AtWorker id worker)
    (allowed : scope state (.pool id (.worker index event)))
    (stepped : Worker.Case deployment.ns (deployment.pool id) id state.redis worker event next
      worker') : contract.InStore next ∧ contract.AtWorker id worker' := by
  cases stepped with
  | nothing | unfinished | stopped => exact ⟨holds, trivial⟩
  | @taken order reply name raw rest member executed split unpaused runnable =>
      have written : contract.payload name raw :=
        holds.lists (.jobs name) raw (by rw [split]; simp)
      have acquired : contract.InStore (state.redis.acquireLock name id) :=
        holds.congr rfl rfl rfl
      refine ⟨acquired.move rfl split, ?_⟩
      split
      · exact atWorker_received written
      · exact trivial
  | got found => exact ⟨holds, atWorker, holds.unique _ _ found⟩
  | missed => exact ⟨holds, atWorker⟩
  | deleted =>
      exact ⟨holds.delUnique _, Held.updatedJob atWorker.1 atWorker.2⟩
  | unanswered =>
      exact ⟨holds.delUnique _, atWorker.1⟩
  | undeleted => exact ⟨holds, atWorker.1⟩
  | @finished fetched raw finish reply executed =>
      refine ⟨holds.removeJobFromInProgress _ _ _ ?_, trivial⟩
      intro key score out fate
      obtain ⟨name, _, _, held⟩ := atWorker
      exact contract.failed state id index name fetched raw finish reply key score out present
        allowed held fate

theorem InStore.reenqueue (holds : contract.InStore redis) {pool : PoolID} {name : String}
    {raw : RawJSON} {rest : List RawJSON}
    (split : redis.list (.inProgress pool name) = rest ++ [raw]) :
    contract.InStore
      ((redis.move (.inProgress pool name) (.jobs name) rest raw).releaseLock name pool) := by
  have moved : contract.InStore (redis.move (.inProgress pool name) (.jobs name) rest raw) :=
    holds.move rfl split
  exact moved.congr rfl rfl rfl

/-- A step of a reaper keeps the contract. -/
theorem InStore.reaper (holds : contract.InStore redis) {curJobTypes : List String}
    {before after : Reaper.State} {event : Reaper.Event}
    (stepped : Reaper.Case curJobTypes redis before event next after) : contract.InStore next := by
  cases stepped with
  | requeued member split => exact holds.reenqueue split
  | cleaned => exact holds.reapStaleLocks _ _
  | deleted | removed => exact holds.congr rfl rfl rfl
  | listed | expired | alive | old | gone | dead | begun | emptied | aborted => exact holds

/-- A step of a pool keeps the contract. -/
theorem Everywhere.pool {state : State} {event : Pool.Event} {pool : Pool}
    (holds : contract.Everywhere state) (allowed : scope state (.pool id event))
    (stepped : Pool.Case deployment.ns (deployment.pool id) id state.redis (state.pools id) event
      next pool) :
    contract.InStore next ∧ ∀ worker ∈ pool.workers, contract.AtWorker id worker := by
  have workers := holds.workers id
  cases stepped with
  | @worked index event worker worker' after alive stopping present moved =>
      have atWorker := workers worker (List.mem_of_getElem? present)
      obtain ⟨store, atWorker'⟩ := holds.store.worker present atWorker allowed moved
      refine ⟨store, ?_⟩
      intro other member
      rcases List.mem_or_eq_of_mem_set member with old | rfl
      · exact workers other old
      · exact atWorker'
  | launched ready =>
      refine ⟨holds.store, ?_⟩
      intro worker member
      rw [List.eq_of_mem_replicate member]
      exact trivial
  | capped phase registered | added alive resting | beat alive added | removed phase resting
  | forgotten phase =>
      refine ⟨?_, workers⟩
      split
      · exact holds.store.congr rfl rfl rfl
      · exact holds.store
  | known => exact ⟨holds.store.congr rfl rfl rfl, workers⟩
  | requeued alive => exact ⟨holds.store.zremLpush allowed, workers⟩
  | reaped alive moved => exact ⟨holds.store.reaper moved, workers⟩
  | returned phase known executed split =>
      refine ⟨holds.store.reenqueue split, ?_⟩
      split
      · exact workers
      · exact workers
  | cleaned phase =>
      refine ⟨?_, workers⟩
      split
      · exact holds.store.reapStaleLocks _ _
      · exact holds.store
  | started ready | stopping phase | halted phase stopped | emptied phase answered empty
  | unreturned phase unanswered | advanced moved idle | crashed => exact ⟨holds.store, workers⟩

/-- Every step within the scope keeps the contract. -/
theorem Everywhere.step {state after : State} {event : Event}
    (holds : contract.Everywhere state) (allowed : scope state event)
    (stepped : System.step deployment state event = some after) : contract.Everywhere after := by
  cases event with
  | pool id event =>
      obtain ⟨pool, pools, moved⟩ := step_pool stepped
      obtain ⟨store, workers⟩ := holds.pool allowed moved
      refine ⟨store, ?_⟩
      intro other worker member
      rw [pools] at member
      by_cases same : other = id
      · subst same
        rw [Function.update_self] at member
        exact workers worker member
      · rw [Function.update_of_ne same] at member
        exact holds.workers other worker member
  | enqueuer call =>
      cases stepped
      exact ⟨holds.store.enqueuer allowed, holds.workers⟩
  | client call =>
      obtain ⟨redis, executed, rfl⟩ := Option.map_eq_some_iff.mp stepped
      exact ⟨holds.store.client allowed executed, holds.workers⟩
  | pause name paused =>
      cases stepped
      exact ⟨holds.store.congr rfl rfl rfl, holds.workers⟩
  | push name raw =>
      cases stepped
      exact ⟨holds.store.lpush (contract.pushed state name raw allowed), holds.workers⟩

end Steps

/-- A payload contract holds in every state reachable within its scope. -/
theorem reachable {state : State} (reached : (system deployment).Reachable scope state) :
    contract.Everywhere state := by
  refine reached.invariant contract.Everywhere ?_ ?_
  · intro start initial
    refine ⟨⟨?_, ?_, ?_⟩, ?_⟩
    · intro key raw member
      rw [initial.list] at member
      exact (List.not_mem_nil member).elim
    · intro key raw member
      rw [initial.zset] at member
      exact (List.not_mem_nil member).elim
    · intro key raw present
      rw [initial.unique] at present
      cases present
    · intro id worker member
      rw [initial.pools] at member
      exact (List.not_mem_nil member).elim
  · intro source event target _ holds allowed stepped
    exact holds.step allowed stepped

/-- The contract without conditions. It still says from which lists workers hold jobs. -/
def unconditional (deployment : Deployment) (scope : State → Event → Prop) :
    PayloadContract deployment scope where
  payload _ _ := True
  job _ _ := True
  value _ _ := True
  enqueued _ _ _ _ _ _ := trivial
  scheduled _ _ _ _ _ _ _ := trivial
  enqueuedUnique _ _ _ _ _ _ _ _ := ⟨trivial, trivial⟩
  pushed _ _ _ _ := trivial
  decoded _ _ _ _ _ _ _ := trivial
  updated _ _ _ _ _ _ _ _ _ _ := trivial
  failed _ _ _ name _ _ _ _ _ _ _ _ _ _ _ := ⟨name, trivial⟩
  requeued _ _ _ _ _ _ _ _ _ _ _ _ _ _ _ := trivial
  buried _ _ _ _ name _ _ _ _ _ _ _ _ _ _ := ⟨name, trivial⟩
  revived _ _ _ _ _ _ _ _ _ _ _ _ _ := trivial
  kept _ _ name _ _ _ _ _ _ _ _ := ⟨name, trivial⟩

end PayloadContract

end System
