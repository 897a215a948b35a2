import WorkQueue.Accounting.LivePool
import WorkQueue.System.Supply
import WorkQueue.Unique.Fresh

/-! # Ordinary runs

In an ordinary run the system writes all payloads, no client interferes, and nothing that a
worker fetches is lost. Then workers hold what their payloads decode to, nothing is ever
requeued from the jobs in progress, and every payload on the retry set counts its failures
(`System.Sound.reachable`).
-/

namespace Worker

/-- The job that a worker holds and whose key it has not deleted yet. -/
def State.holds? : State → Option FetchedJob
  | .fetched job | .gotUnique job _ => some job
  | _ => none

/-- What a worker holds is the unique job that its payload decodes to. -/
def Genuine (worker : State) : Prop :=
  ∀ job ∈ worker.holds?, newJob job.rawJSON job.dequeuedFrom job.inProgQueue = some job ∧ job.unique

theorem genuine_received (raw : RawJSON) (source target : ListKey) :
    Genuine (received (some (some (raw, source, target)))) := by
  intro job held
  rw [received_some] at held
  cases decoded : newJob raw source target with
  | none =>
      rw [decoded] at held
      cases held
  | some other =>
      obtain ⟨same, dequeuedFrom, inProgQueue, -⟩ := newJob_eq_some decoded
      rw [decoded] at held
      dsimp only at held
      split at held
      · next unique =>
          obtain rfl := Option.some.inj held
          rw [same, dequeuedFrom, inProgQueue]
          exact ⟨decoded, unique⟩
      · cases held

theorem Genuine.step {ns : String} {config : PoolConfig} {id : PoolID} {redis next : Store}
    {worker worker' : State} {event : Event} (genuine : Genuine worker)
    (moved : Case ns config id redis worker event next worker') : Genuine worker' := by
  cases moved with
  | taken =>
      split
      · exact genuine_received _ _ _
      · exact fun job impossible => nomatch impossible
  | got => exact genuine
  | _ => exact fun job impossible => nomatch impossible

/-- A job that the completing transaction keeps has failed once more. -/
theorem processJob_fails {config : PoolConfig} {job : Job} {finish : Finish}
    (kept : Finish.KeepsIdentity finish job) (again : (processJob config job finish).2 ≠ none) :
    (processJob config job finish).1.fails = job.fails + 1 := by
  cases registered : config.jobType? job.name with
  | none => simp only [processJob, registered, Job.failed]
  | some jobType =>
      cases outcome : finish.error with
      | none => simp only [processJob, registered, outcome, ne_eq, not_true_eq_false] at again
      | some message =>
          simp only [processJob, registered, outcome, Job.failed]
          rw [kept]

theorem taken_of_holds {worker : Worker.State} {job : FetchedJob}
    (held : worker.holds? = some job) : worker.taken = some (job.inProgQueue, job.rawJSON) := by
  cases worker with
  | fetched other | gotUnique other value =>
      obtain rfl := Option.some.inj held
      rfl
  | _ => cases held

end Worker

/-- A unique payload names its key, and no payload is ambiguous. -/
structure RawJSON.Keyed (raw : RawJSON) : Prop where
  unambiguous : raw.Unambiguous
  key : raw.isUnique → ∃ key, raw.textField "unique_key" = some key ∧ key ≠ ""

theorem RawJSON.keyed_serialize {job : Job} (keyed : job.unique → job.uniqueKey ≠ "") :
    Keyed (.json job.serialize) := by
  refine ⟨job.unambiguous_serialize, fun unique => ?_⟩
  exact ⟨job.uniqueKey, job.textField_serialize_uniqueKey,
    keyed (job.isUnique_serialize.symm.trans unique)⟩

theorem RawJSON.Keyed.rewrite {raw written : RawJSON} {lua edited : Json} (keyed : raw.Keyed)
    (decoded : Cjson.decode raw = some lua) (encoded : Cjson.encode edited = some written)
    (same : Store.SameIdentity lua edited) : written.Keyed := by
  refine ⟨Cjson.unambiguous_encode encoded
    (same.unambiguous (Cjson.unambiguous_decode decoded keyed.unambiguous)), fun unique => ?_⟩
  rw [Cjson.isUnique_encode encoded, same.unique, Cjson.isUnique_decode decoded] at unique
  obtain ⟨key, present, nonempty⟩ := keyed.key unique
  refine ⟨key, ?_, nonempty⟩
  rw [Cjson.textField_encode encoded, same.uniqueKey, Cjson.textField_decode decoded present]

namespace System

variable {deployment : Deployment} {state next : State} {event : Event}

/-- All unique payloads of the system name their keys. -/
def keyedContract (deployment : Deployment) : PayloadContract deployment OwnPayloads where
  payload _ := RawJSON.Keyed
  job _ job := job.unique → job.uniqueKey ≠ ""
  value _ raw := raw = .placeholder ∨ raw.Keyed
  enqueued _ name id now args _ :=
    @RawJSON.keyed_serialize (Enqueuer.plainJob name id now args) nofun
  scheduled _ name id now args _ _ :=
    @RawJSON.keyed_serialize (Enqueuer.plainJob name id now args) nofun
  enqueuedUnique _ name id now args keyMap _ _ := by
    have keyed : RawJSON.Keyed
        (.json (Enqueuer.uniqueJob deployment.ns name id now args keyMap).serialize) :=
      RawJSON.keyed_serialize fun _ => redisKeyUniqueJob_ne_empty _ _ _
    refine ⟨keyed, ?_⟩
    cases keyMap with
    | none => exact .inl rfl
    | some fields => exact .inr keyed
  pushed _ _ _ allowed := Bool.noConfusion allowed.1
  decoded _ _ _ _ _ keyed decoded unique := by
    obtain ⟨key, present, nonempty⟩ :=
      keyed.key ((newJob_unique keyed.unambiguous decoded).trans unique)
    rw [(newJob_textField keyed.unambiguous decoded).2.2] at present
    exact Option.some.inj present ▸ nonempty
  updated _ _ _ _ _ _ _ valued updating decoded unique := by
    rcases valued with placeholder | keyed
    · exact (updating placeholder).elim
    · obtain ⟨key, present, nonempty⟩ :=
        keyed.key ((newJob_unique keyed.unambiguous decoded).trans unique)
      rw [(newJob_textField keyed.unambiguous decoded).2.2] at present
      exact Option.some.inj present ▸ nonempty
  failed _ _ _ name fetched _ _ _ _ _ _ running allowed held fate := by
    obtain ⟨-, -, unique, keys⟩ := Worker.processJob_identity
      (allowed.2 _ rfl fetched (runningJob?_of_running running))
    obtain ⟨rfl, -⟩ := Worker.processJob_written fate
    exact ⟨name, RawJSON.keyed_serialize (by rw [unique, keys]; exact held)⟩
  requeued _ _ _ now _ _ lua _ _ _ _ keyed decoded _ encoded :=
    keyed.rewrite decoded encoded (Store.sameIdentity_requeuedJob now lua)
  buried _ _ _ now name _ lua _ _ _ keyed decoded _ _ encoded :=
    ⟨name, keyed.rewrite decoded encoded (Store.sameIdentity_unknownJob now lua)⟩
  revived _ _ _ _ lua _ now _ _ keyed decoded _ encoded :=
    keyed.rewrite decoded encoded (Store.sameIdentity_revivedJob now lua)
  kept _ _ name _ lua now _ _ keyed decoded encoded :=
    ⟨name, keyed.rewrite decoded encoded (Store.sameIdentity_unknownJob now lua)⟩

/-- Whether an event is a command of a client. -/
def Event.isClient : Event → Bool
  | .client _ => true
  | _ => false

/-- The job whose unique key an event deletes. -/
def deleter? (state : State) : Event → Option FetchedJob
  | .pool id (.worker index (.delUnique reply)) =>
      if reply = .failed then none
      else ((state.pools id).workers[index]?.bind Worker.State.updating?).map Prod.fst
  | _ => none

/-- The worker that a step moves: its pool, its index and its event. -/
def Event.workerEvent? : Event → Option (PoolID × ℕ × Worker.Event)
  | .pool id (.worker index workerEvent) => some (id, index, workerEvent)
  | _ => none

/-- No worker is disturbed, and no reaper takes a pool for dead. -/
def Unhindered (state : State) (event : Event) : Prop :=
  takenForDead? state event = none ∧
    match event with
    | .pool id (.worker index workerEvent) => ∀ worker ∈ (state.pools id).workers[index]?,
        Worker.Undisturbed id state.redis worker workerEvent
    | _ => True

theorem unhindered_iff : Unhindered state event ↔ takenForDead? state event = none ∧
    ∀ moved ∈ event.workerEvent?, ∀ worker ∈ (state.pools moved.1).workers[moved.2.1]?,
      Worker.Undisturbed moved.1 state.redis worker moved.2.2 := by
  unfold Unhindered Event.workerEvent?
  split <;> simp

instance (state : State) (event : Event) : Decidable (Unhindered state event) :=
  decidable_of_iff _ unhindered_iff.symm

theorem Unhindered.undisturbed (unhindered : Unhindered state event) (id : PoolID) :
    Undisturbed id state event := by
  obtain ⟨nothing, workers⟩ := unhindered
  refine ⟨by rw [nothing]; simp, ?_⟩
  split
  · rintro rfl
    exact workers
  · trivial

/-- The system runs by itself: it writes all payloads, no client interferes, nothing that
is fetched is lost, and the count of failures of a job does not wrap around. -/
def Ordinary (state : State) (event : Event) : Prop :=
  OwnPayloads state event ∧ event.isClient = false ∧ Unhindered state event ∧
    ∀ completion ∈ event.finish?, ∀ job ∈ runningJob? state completion.1 completion.2.1,
      job.fails ≠ -1

instance (state : State) (event : Event) : Decidable (Ordinary state event) :=
  inferInstanceAs (Decidable (_ ∧ _))

/-- What holds in every state of an ordinary run. -/
structure Sound (deployment : Deployment) (state : State) : Prop where
  regular : Regular deployment state
  kept : ∀ id, Kept id state
  names : (namesContract deployment).Everywhere state
  counts : (failsContract deployment).Everywhere state
  keyed : (keyedContract deployment).Everywhere state
  genuine : ∀ id, ∀ worker ∈ (state.pools id).workers, Worker.Genuine worker
  retried : ∀ raw ∈ (state.redis.zset .retry).members, raw.field "fails" ≠ none

namespace Sound

/-- Nothing of a pool is requeued while it stops. -/
theorem nothing_returned (sound : Sound deployment state) {id : PoolID} {name : String}
    {raw : RawJSON} {rest : List RawJSON} (phase : (state.pools id).phase = .requeueing)
    (split : state.redis.list (.inProgress id name) = rest ++ [raw]) : False := by
  have empty := ((sound.kept id).nothing_of_stopped sound.regular (by rw [phase]; rfl) name).1
  rw [empty] at split
  exact List.append_ne_nil_of_right_ne_nil _ (List.cons_ne_nil _ _) split.symm

/-- No reaper requeues the jobs of a pool. -/
theorem nothing_reaped (sound : Sound deployment state) {reaper id : PoolID}
    {jobTypes : List String} {todo : List (PoolID × List String)}
    (current : (state.pools reaper).reaper = .requeueing id jobTypes todo) : False := by
  refine (sound.kept id).spared reaper ?_
  rw [current]
  exact List.mem_cons_self

/-- What a worker has taken is in progress. -/
theorem mem_progress (sound : Sound deployment state) {id : PoolID} {worker : Worker.State}
    {list : ListKey} {raw : RawJSON} (member : worker ∈ (state.pools id).workers)
    (taken : worker.taken = some (list, raw)) : raw ∈ state.redis.list list := by
  have named := sound.names.workers id worker member
  have progress : ∃ name, list = .inProgress id name := by
    cases worker with
    | fetched job | running job raw' =>
        obtain ⟨name, -, progress, -⟩ := named
        exact ⟨name, by rw [← progress, ← (Prod.mk.inj (Option.some.inj taken)).1]⟩
    | gotUnique job value =>
        obtain ⟨⟨name, -, progress, -⟩, -⟩ := named
        exact ⟨name, by rw [← progress, ← (Prod.mk.inj (Option.some.inj taken)).1]⟩
    | idle | stopped => cases taken
  obtain ⟨name, rfl⟩ := progress
  rw [← List.count_pos_iff, (sound.kept id).tidy.counted]
  exact List.countP_pos_iff.mpr ⟨worker, member, by simpa using taken⟩

/-- What a worker holds is not ambiguous. -/
theorem unambiguous_held (sound : Sound deployment state) {id : PoolID} {worker : Worker.State}
    {job : FetchedJob} (member : worker ∈ (state.pools id).workers)
    (held : worker.holds? = some job) : job.rawJSON.Unambiguous :=
  (sound.keyed.store.lists _ _ (sound.mem_progress member (Worker.taken_of_holds held))).unambiguous

end Sound

/-- What a completion puts on the retry set counts its failures. -/
theorem field_fails_finished {id : PoolID} {index : ℕ} {job : FetchedJob} {raw written : RawJSON}
    {finish : Finish} {reply : Reply} {target : ZSetKey} {score : Int64}
    (present : (state.pools id).workers[index]? = some (.running job raw))
    (ordinary : Ordinary state (.pool id (.worker index (.finish finish reply))))
    (fate : (Worker.processJob (deployment.pool id) job.toJob finish).2 =
      some (target, score, written)) : written.field "fails" ≠ none := by
  obtain ⟨⟨-, identity⟩, -, -, counted⟩ := ordinary
  have running := runningJob?_of_running present
  have fails : (Worker.processJob (deployment.pool id) job.toJob finish).1.fails = job.fails + 1 :=
    Worker.processJob_fails (identity _ rfl job running) (by rw [fate]; simp)
  obtain ⟨rfl, -⟩ := Worker.processJob_written fate
  intro absent
  change Json.getField "fails" (Worker.processJob (deployment.pool id) job.toJob finish).1.fields =
    none at absent
  rw [Job.getField_fails] at absent
  split at absent
  · next zero =>
      rw [fails] at zero
      exact counted _ rfl job running (by grind)
  · cases absent

theorem Sound.step_retried (sound : Sound deployment state) (ordinary : Ordinary state event)
    (stepped : step deployment state event = some next) :
    ∀ raw ∈ (next.redis.zset .retry).members, raw.field "fails" ≠ none := by
  cases step_supply stepped with
  | same waiting =>
      rw [waiting.zset .retry (by simp)]
      exact sound.retried
  | @called call _ executed =>
      rw [executed]
      cases call with
      | enqueueUnique jobName id now args keyMap runAt =>
          exact Enqueuer.execute_unique_rec rfl rfl sound.retried sound.retried
            (fun _ => sound.retried) runAt
      | _ => exact sound.retried
  | @requeued id key now _ _ after =>
      rw [after]
      have outcome := state.redis.redisLuaZremLpushCmd_cases key (deployment.pool id).names now
      generalize state.redis.redisLuaZremLpushCmd key (deployment.pool id).names now = result
        at outcome ⊢
      have erased : ∀ raw, ∀ other ∈ ((state.redis.zrem key raw).zset .retry).members,
          other.field "fails" ≠ none := by
        intro raw other member
        by_cases same : ZSetKey.retry = key
        · subst same
          simp only [Store.zrem, Function.update_self, SortedSet.mem_erase] at member
          exact sound.retried other member.2
        · simp only [Store.zrem, Function.update_of_ne same] at member
          exact sound.retried other member
      cases outcome with
      | nothing | undecodable => exact sound.retried
      | _ => exact erased _
  | returned _ phase split => exact (sound.nothing_returned phase split).elim
  | reaped _ current => exact (sound.nothing_reaped current).elim
  | @worked id index worker worker' workerEvent named present _ _ moved =>
      subst named
      generalize next.redis = redis at moved ⊢
      cases moved with
      | @finished job raw finish reply executed =>
          simp only [Worker.removeJobFromInProgress]
          cases fate : (Worker.processJob (deployment.pool id) job.toJob finish).2 with
          | none => exact sound.retried
          | some written =>
              obtain ⟨target, score, written⟩ := written
              have counted := field_fails_finished present ordinary fate
              intro other member
              by_cases same : ZSetKey.retry = target
              · subst same
                simp only [Store.zadd, Function.update_self, SortedSet.mem_add] at member
                rcases member with rfl | old
                · exact counted
                · exact sound.retried other old
              · simp only [Store.zadd, Function.update_of_ne same] at member
                exact sound.retried other member
      | _ => exact sound.retried
  | client called =>
      subst called
      cases ordinary.2.1
  | pushed called =>
      subst called
      cases ordinary.1.1

theorem Sound.reachable (reached : (system deployment).Reachable Ordinary state) :
    Sound deployment state := by
  have sound : ∀ {state : State}, (system deployment).Reachable Ordinary state →
      (∀ raw ∈ (state.redis.zset .retry).members, raw.field "fails" ≠ none) →
      Sound deployment state := by
    intro state reached retried
    have own := reached.mono fun _ _ (ordinary : Ordinary _ _) => ordinary.1
    exact ⟨Regular.reachable reached, fun id => Kept.reachable
        (reached.mono fun _ _ ordinary => ordinary.2.2.1.undisturbed id),
      (namesContract deployment).reachable own, (failsContract deployment).reachable own,
      (keyedContract deployment).reachable own,
      workers_invariant Worker.Genuine (fun job impossible => nomatch impossible)
        (fun _ _ genuine moved => genuine.step moved) reached, retried⟩
  refine sound reached (reached.invariant
    (fun state => ∀ raw ∈ (state.redis.zset .retry).members, raw.field "fails" ≠ none) ?_ ?_)
  · intro start begun raw member
    rw [begun.zset] at member
    exact (List.not_mem_nil member).elim
  · intro source event target reachedSource retried ordinary stepped
    exact (sound reachedSource retried).step_retried ordinary stepped

end System
