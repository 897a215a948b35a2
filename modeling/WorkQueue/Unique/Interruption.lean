import WorkQueue.Unique.Updates

/-! # Updated arguments after a crash

The list of jobs in progress keeps the payload that was queued, while updated arguments are
only stored under the unique key. A worker deletes the key before its handler runs. When its
pool crashes and the payload is processed again, the handler sees the arguments of the last
call exactly if the crash came before the deletion or the queued payload carries the same
arguments (`System.same_arguments_after_crash_iff`).
-/

namespace Worker

/-- What a worker that processes a job hands to its handler when it finds a value under the
key, or none. -/
def handed (job : FetchedJob) : Option RawJSON → FetchedJob
  | none => job
  | some value => updatedJob job value

end Worker

namespace System

variable {deployment : Deployment} {key : String}

/-- A step that does not change the value of the key. -/
def Keeps (deployment : Deployment) (key : String) (state : State) (event : Event) : Prop :=
  ∀ next ∈ step deployment state event, next.redis.unique key = state.redis.unique key

instance (deployment : Deployment) (key : String) (state : State) (event : Event) :
    Decidable (Keeps deployment key state event) :=
  inferInstanceAs (Decidable (∀ next ∈ step deployment state event, _))

/-- The worker that takes a step. -/
def Event.worker? : Event → Option (PoolID × ℕ)
  | .pool id (.worker index _) => some (id, index)
  | _ => none

/-- One worker reads and deletes the key of its job and is answered, while all other steps
keep the key. -/
def Processing (deployment : Deployment) (key : String) (id : PoolID) (index : ℕ)
    (state : State) (event : Event) : Prop :=
  if event.worker? = some (id, index) then
    event = .pool id (.worker index (.getUnique .ok)) ∨
      event = .pool id (.worker index (.delUnique .ok))
  else Keeps deployment key state event

instance (deployment : Deployment) (key : String) (id : PoolID) (index : ℕ) (state : State)
    (event : Event) : Decidable (Processing deployment key id index state event) := by
  unfold Processing
  infer_instance

section Processing

variable {state final : State} {id : PoolID} {index : ℕ} {job : FetchedJob}

/-- How far a worker has come with a job whose key had a value. -/
inductive Progress (key : String) (value : Option RawJSON) (id : PoolID) (index : ℕ)
    (job : FetchedJob) (state : State) : Prop
  | fetched : (state.pools id).workers[index]? = some (.fetched job) →
      state.redis.unique key = value → Progress key value id index job state
  | gotUnique {raw : RawJSON} : value = some raw →
      (state.pools id).workers[index]? = some (.gotUnique job raw) →
      Progress key value id index job state
  | running : (state.pools id).workers[index]? =
      some (.running (Worker.handed job value) job.rawJSON) → Progress key value id index job state
  | gone : (∀ worker, (state.pools id).workers[index]? = some worker → worker = .idle) →
      Progress key value id index job state

theorem Progress.step {value : Option RawJSON} {next : State} {event : Event}
    (own : Worker.uniqueKey deployment.ns job.toJob = key)
    (progress : Progress key value id index job state)
    (processing : Processing deployment key id index state event)
    (stepped : System.step deployment state event = some next) :
    Progress key value id index job next := by
  have steps : event = .pool id (.worker index (.getUnique .ok)) ∨
      event = .pool id (.worker index (.delUnique .ok)) ∨
      event.worker? ≠ some (id, index) ∧ Keeps deployment key state event := by
    unfold Processing at processing
    split at processing
    · exact processing.imp_right .inl
    · next other => exact .inr (.inr ⟨other, processing⟩)
  rcases steps with rfl | rfl | ⟨other, keeps⟩
  · obtain ⟨worker, worker', present, after, moved⟩ := step_own_worker stepped
    generalize next.redis = redis at moved
    cases moved with
    | @got held raw found =>
        cases progress with
        | fetched before stored =>
            obtain rfl := Worker.State.fetched.inj (Option.some.inj (present.symm.trans before))
            rw [own, stored] at found
            exact .gotUnique found after
        | gotUnique _ before | running before => cases present.symm.trans before
        | gone idle => cases idle _ present
    | @missed held _ absent =>
        cases progress with
        | fetched before stored =>
            obtain rfl := Worker.State.fetched.inj (Option.some.inj (present.symm.trans before))
            have nothing := absent rfl
            rw [own, stored] at nothing
            exact .running (by rw [nothing]; exact after)
        | gotUnique _ before | running before => cases present.symm.trans before
        | gone idle => cases idle _ present
  · obtain ⟨worker, worker', present, after, moved⟩ := step_own_worker stepped
    generalize next.redis = redis at moved
    cases moved with
    | @deleted held raw =>
        cases progress with
        | fetched before | running before => cases present.symm.trans before
        | gotUnique found before =>
            obtain ⟨rfl, rfl⟩ := Worker.State.gotUnique.inj
              (Option.some.inj (present.symm.trans before))
            exact .running (by rw [found]; exact after)
        | gone idle => cases idle _ present
  · cases found : (next.pools id).workers[index]? with
    | none =>
        refine .gone fun worker present => ?_
        rw [found] at present
        cases present
    | some worker =>
        rcases step_worker stepped found with same | rfl | ⟨_, workerEvent, named, -⟩
        · have unmoved := same.trans found.symm
          cases progress with
          | fetched before stored =>
              exact .fetched (unmoved ▸ before) ((keeps next stepped).trans stored)
          | gotUnique stored before => exact .gotUnique stored (unmoved ▸ before)
          | running before => exact .running (unmoved ▸ before)
          | gone idle => exact .gone (unmoved ▸ idle)
        · refine .gone fun worker present => ?_
          exact Option.some.inj (present.symm.trans found)
        · exact (other (by rw [named]; rfl)).elim

/-- A worker that has processed a job runs what it has found under the key. -/
theorem handed_of_processing (own : Worker.uniqueKey deployment.ns job.toJob = key)
    (fetched : (state.pools id).workers[index]? = some (.fetched job))
    (processed : (system deployment).Leads (Processing deployment key id index) state final)
    {handed : FetchedJob} {raw : RawJSON}
    (running : (final.pools id).workers[index]? = some (.running handed raw)) :
    handed = Worker.handed job (state.redis.unique key) := by
  have progress : Progress key (state.redis.unique key) id index job final :=
    processed.invariant _ (.fetched fetched rfl) fun _ _ _ progress processing stepped =>
      progress.step own processing stepped
  cases progress with
  | fetched before | gotUnique _ before => cases running.symm.trans before
  | running before =>
      exact (Worker.State.running.inj (Option.some.inj (running.symm.trans before))).1
  | gone idle => cases idle _ running

end Processing

/-- A crash leaves the store alone. -/
theorem redis_of_crash {state down : State} {id : PoolID}
    (crashed : step deployment state (.pool id .crash) = some down) : down.redis = state.redis := by
  obtain ⟨pool, -, moved⟩ := step_pool crashed
  generalize down.redis = redis at moved ⊢
  cases moved with
  | crashed => rfl

/-- After any coordinated run, a pool crashes while a worker has a job of the key in
progress, and with no change of the key in between the payload is fetched and processed
again: the handler gets the arguments of the last call if and only if the worker had not
deleted the key yet or the payload itself carries these arguments. -/
theorem same_arguments_after_crash_iff {state down later final : State} {sent : Args}
    (reached : ((system deployment).monitored none (lastSent deployment.ns key)).Reachable
      (fun pair event => Coordinated deployment key pair.1 event) (state, some sent))
    {id : PoolID} {index : ℕ} {worker : Worker.State} {list : ListKey} {raw : RawJSON}
    (interrupted : (state.pools id).workers[index]? = some worker)
    (taken : worker.taken = some (list, raw)) (never : raw.neverFailed key)
    (settled : worker.holds? = none → state.redis.unique key = none)
    (crashed : step deployment state (.pool id .crash) = some down)
    (requeued : (system deployment).Leads (Keeps deployment key) down later)
    {id' : PoolID} {index' : ℕ} {job handed : FetchedJob} {raw' : RawJSON}
    (fetched : (later.pools id').workers[index']? = some (.fetched job)) (same : job.rawJSON = raw)
    (processed : (system deployment).Leads (Processing deployment key id' index') later final)
    (running : (final.pools id').workers[index']? = some (.running handed raw')) :
    handed.args = sent ↔ worker.holds?.isSome ∨ raw.args? = some sent := by
  have plain : (system deployment).Reachable (Coordinated deployment key) state :=
    TransitionSystem.Reachable.of_monitored reached
  have sound := Sound.reachable (plain.mono fun _ _ coordinated => coordinated.1.1)
  have stored := sound.mem_progress (List.mem_of_getElem? interrupted) taken
  have keyed := sound.keyed.store.lists _ _ stored
  have fresh := RawJSON.isFresh_of_neverFailed keyed.unambiguous
    (sound.counts.store.lists _ _ stored) never
  have nonempty : key ≠ "" := by
    obtain ⟨unique, present, -⟩ := RawJSON.isFresh_iff.mp fresh
    obtain ⟨own, found, nonempty⟩ := keyed.key unique
    exact Option.some.inj (found.symm.trans present) ▸ nonempty
  -- The worker that fetches the payload again decodes it and finds the value of the crash.
  have arrived : (system deployment).Reachable (fun _ _ => True) later := by
    have moved : (system deployment).step state (.pool id .crash) = some down := crashed
    refine TransitionSystem.Reachable.extend ?_ requeued fun _ _ _ => trivial
    exact .step (plain.mono fun _ _ _ => trivial) trivial moved
  have decoded := (workers_invariant Worker.Genuine (fun job impossible => nomatch impossible)
    (fun _ _ genuine moved => genuine.step moved) arrived id' _ (List.mem_of_getElem? fetched) job
    rfl).1
  have kept : later.redis.unique key = state.redis.unique key :=
    requeued.invariant (fun other => other.redis.unique key = state.redis.unique key)
      (by rw [redis_of_crash crashed]) fun _ _ _ before keeps stepped =>
        (keeps _ stepped).trans before
  have own : Worker.uniqueKey deployment.ns job.toJob = key :=
    Worker.uniqueKey_of_isFresh nonempty (same ▸ keyed.unambiguous) decoded (same ▸ fresh)
  rw [handed_of_processing own fetched processed running, kept]
  have read : raw.args? = some job.args :=
    same ▸ RawJSON.args?_of_newJob (same ▸ keyed.unambiguous) decoded
  cases holds : worker.holds? with
  | none =>
      rw [settled holds, Worker.handed, read]
      simp
  | some before =>
      have progress := Worker.taken_of_holds holds
      rw [taken] at progress
      obtain ⟨-, again⟩ := Prod.mk.inj (Option.some.inj progress)
      obtain ⟨candidate, waits, payload⟩ :=
        exists_pending_of_worker interrupted holds (again ▸ fresh)
      obtain ⟨value, present, last⟩ := (Current.reachable nonempty reached).handed_args waits
        (by rw [payload, ← again]; exact keyed.unambiguous)
        (by rw [payload, ← again, ← same]; exact decoded)
      rw [present, Worker.handed, Option.some.inj last]
      simp

/-- The second pool reaps the first one and fetches what it has requeued. -/
def takenOver : List Event := reapedFirst ++ [.pool "B" (.worker 0 (.fetch ["send"] .ok))]

/-- The worker of the second pool reads and deletes the key. -/
def processedAgain : List Event :=
  [.getUnique .ok, .delUnique .ok].map fun event => .pool "B" (.worker 0 event)

/-- The arguments of a waiting job are updated, and a worker of the first of two pools reads
the key. -/
def updatedTwiceOfTwo : List Event :=
  boot ["send"] "B" ++ updatedTwice

/-- The first pool crashes, the second one takes its job over and processes it. -/
def interrupted (state : State) : Option (State × State × State) := do
  let down ← step single state (.pool "A" .crash)
  let later ← (system single).run (Keeps single sendKey) down takenOver
  let final ← (system single).run (Processing single sendKey "B" 0) later processedAgain
  some (down, later, final)

theorem same_arguments_after_early_crash :
    ∃ state down later final handed raw,
      ((system single).monitored none (lastSent single.ns sendKey)).Reachable
        (fun pair event => Coordinated single sendKey pair.1 event) (state, some (payload 2)) ∧
      interrupted state = some (down, later, final) ∧
      (final.pools "B").workers[0]? = some (.running handed raw) ∧ handed.args = payload 2 := by
  have run : ∃ pair, ((system single).monitored none (lastSent single.ns sendKey)).Reachable
        (fun pair event => Direct single sendKey pair.1 event) pair ∧
      pair.2 = some (payload 2) ∧
      ∃ worker ∈ (pair.1.pools "A").workers[0]?, worker.holds?.isSome ∧
        ∃ taken ∈ worker.taken, taken.2.neverFailed sendKey ∧
          ∃ states ∈ interrupted pair.1,
            (∃ again ∈ (states.2.1.pools "B").workers[0]?, ∃ job ∈ again.holds?,
              again = .fetched job ∧ job.rawJSON = taken.2) ∧
            (runningJob? states.2.2 "B" 0).isSome :=
    TransitionSystem.Reachable.exists_of_run updatedTwiceOfTwo
      (TransitionSystem.initial_monitored initial_emptyState) (by decide +kernel)
  obtain ⟨⟨state, memory⟩, reached, rfl, worker, before, held, ⟨list, raw⟩, taken, never,
    ⟨down, later, final⟩, chain, ⟨again, fetched, job, -, rfl, same⟩, runs⟩ := run
  obtain ⟨handed, started⟩ := Option.isSome_iff_exists.mp runs
  obtain ⟨raw', running⟩ := running_of_runningJob? started
  have coordinated := coordinated_of_direct (redisKeyUniqueJob_ne_empty _ _ _) reached
  refine ⟨state, down, later, final, handed, raw', coordinated, chain, running, ?_⟩
  simp only [interrupted, Option.mem_def, Option.bind_eq_bind, Option.bind_eq_some_iff,
    Option.some.injEq, Prod.mk.injEq] at chain
  obtain ⟨_, crashed, _, requeued, _, processed, rfl, rfl, rfl⟩ := chain
  have settled : worker.holds? = none → state.redis.unique sendKey = none := by
    intro nothing
    rw [nothing] at held
    cases held
  exact (same_arguments_after_crash_iff coordinated before taken never settled crashed
    (.run requeued) fetched same (.run processed) running).mpr (.inl held)

/-- The pool crashes after its worker has deleted the key: the handler of the interrupted run
had the arguments of the last call, and the one of the second run gets the first ones. -/
theorem other_arguments_after_late_crash :
    ∃ pair, ((system single).monitored none (lastSent single.ns sendKey)).Reachable
        (fun pair event => OwnPayloads pair.1 event) pair ∧ pair.2 = some (payload 2) ∧
      (∃ interrupted ∈ runningJob? pair.1 "A" 0, interrupted.args = payload 2) ∧
      ∃ handed ∈ runningJob? pair.1 "B" 0, handed.args = payload 1 :=
  TransitionSystem.Reachable.exists_of_run
    (updatedTwiceOfTwo ++ startUnique.drop 2 ++ ([.pool "A" .crash] : List Event) ++ takenOver ++
      processedAgain.take 1)
    (TransitionSystem.initial_monitored initial_emptyState) (by decide +kernel)

end System
