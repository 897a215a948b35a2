import WorkQueue.Unique.Flow

/-! # At most one pending job for a unique key

The key of a unique job is set when the job is enqueued and stays set while the job waits,
so that no second job with the key is enqueued next to it (`System.at_most_one_pending`).

A job that has failed carries the same key, and its retry deletes the key although the key
may belong to a newer job by then. Where that happens a second job can be enqueued next to
the waiting one.
-/

/-- The fresh payloads of a list are those that wait there. -/
theorem RawJSON.card_candidates (key : String) (raws : List RawJSON) :
    ((raws.map (candidates key)).sum).card = raws.countP (isFresh key) := by
  induction raws with
  | nil => rfl
  | cons raw raws ih =>
      rw [List.map_cons, List.sum_cons, Multiset.card_add, ih, List.countP_cons, add_comm]
      by_cases fresh : raw.isFresh key
      · rw [candidates_of_fresh fresh, Multiset.card_singleton, if_pos fresh]
      · rw [candidates_of_not_fresh fresh, Multiset.card_zero, if_neg fresh]

/-- What waits in the store is a fresh payload whose key has not been read. -/
theorem RawJSON.of_mem_candidates {key : String} {raws : List RawJSON} {candidate : Candidate}
    (member : candidate ∈ (raws.map (candidates key)).sum) :
    candidate.payload ∈ raws ∧ candidate.payload.isFresh key ∧ candidate.read = none := by
  obtain ⟨raw, present, waits⟩ := List.mem_sum_map.mp member
  by_cases fresh : raw.isFresh key
  · rw [candidates_of_fresh fresh, Multiset.mem_singleton] at waits
    rw [waits]
    exact ⟨present, fresh, rfl⟩
  · rw [candidates_of_not_fresh fresh] at waits
    exact (Multiset.notMem_zero candidate waits).elim

/-- What waits with a worker is the payload of the job that it holds. -/
theorem Worker.State.of_mem_candidates {key : String} {worker : Worker.State}
    {candidate : Candidate} (waits : candidate ∈ worker.candidates key) :
    ∃ job, worker.holds? = some job ∧ job.rawJSON = candidate.payload ∧
      candidate.payload.isFresh key := by
  cases worker with
  | fetched job =>
      rw [candidates, RawJSON.candidates] at waits
      split at waits
      · next fresh =>
          rw [Multiset.mem_singleton] at waits
          rw [waits]
          exact ⟨job, rfl, rfl, fresh⟩
      · exact (Multiset.notMem_zero candidate waits).elim
  | gotUnique job value =>
      rw [candidates] at waits
      split at waits
      · next fresh =>
          rw [Multiset.mem_singleton] at waits
          rw [waits]
          exact ⟨job, rfl, rfl, fresh⟩
      · exact (Multiset.notMem_zero candidate waits).elim
  | idle | running job raw | stopped => exact (Multiset.notMem_zero candidate waits).elim

namespace System

variable {deployment : Deployment} {state next : State} {event : Event} {key : String}

theorem pending_initial (begun : Initial state) : pending key state = 0 := by
  funext place
  cases place with
  | queue name =>
      rw [pending, begun.list]
      rfl
  | scheduled =>
      rw [pending, begun.zset]
      rfl
  | held id =>
      rw [pending, begun.pools]
      rfl

/-- At most one fresh job with the key waits, and then the key is set. -/
def Reserved (key : String) (state : State) : Prop :=
  Sole (pending key state) fun _ => state.redis.unique key ≠ none

/-- An ordinary step in which a worker that deletes a key holds a job that has never
failed, unless no such job waits for the key. -/
def Exclusive (deployment : Deployment) (state : State) (event : Event) : Prop :=
  Ordinary state event ∧ ∀ job ∈ deleter? state event,
    job.fails = 0 ∨ pending (Worker.uniqueKey deployment.ns job.toJob) state = 0

/-- The job whose key is deleted is held by a worker that has read the key. -/
theorem gotUnique_of_deleter {job : FetchedJob} (deleter : deleter? state event = some job) :
    ∃ (id : PoolID) (index : ℕ) (value : RawJSON),
      (state.pools id).workers[index]? = some (Worker.State.gotUnique job value) := by
  unfold deleter? at deleter
  split at deleter
  · next id index reply =>
      by_cases failed : reply = .failed
      · simp only [failed, ↓reduceIte, reduceCtorEq] at deleter
      · simp only [failed, ↓reduceIte] at deleter
        obtain ⟨⟨other, value⟩, found, rfl⟩ := Option.map_eq_some_iff.mp deleter
        obtain ⟨worker, present, updating⟩ := Option.bind_eq_some_iff.mp found
        refine ⟨id, index, value, ?_⟩
        cases worker with
        | gotUnique job' value' =>
            obtain ⟨rfl, rfl⟩ := Prod.mk.inj (Option.some.inj updating)
            exact present
        | _ => cases updating
  · cases deleter

namespace Sound

/-- A worker that holds a job that has never failed holds a fresh job. -/
theorem isFresh_of_fails (sound : Sound deployment state) {id : PoolID} {worker : Worker.State}
    {job : FetchedJob} (member : worker ∈ (state.pools id).workers)
    (held : worker.holds? = some job) (never : job.fails = 0) :
    job.rawJSON.isFresh (Worker.uniqueKey deployment.ns job.toJob) := by
  obtain ⟨decoded, unique⟩ := sound.genuine id _ member job held
  have stored := sound.mem_progress member (Worker.taken_of_holds held)
  have keyed := sound.keyed.store.lists _ _ stored
  obtain ⟨key, present, nonempty⟩ :=
    keyed.key ((newJob_unique keyed.unambiguous decoded).trans unique)
  have own : job.uniqueKey = key :=
    Option.some.inj ((newJob_textField keyed.unambiguous decoded).2.2.symm.trans present)
  obtain ⟨-, -, -, document, same, read⟩ := newJob_eq_some decoded
  refine RawJSON.isFresh_of_neverFailed keyed.unambiguous (sound.counts.store.lists _ _ stored) ?_
  rw [same, RawJSON.neverFailed, read, Worker.uniqueKey, if_neg (own ▸ nonempty)]
  simp [unique, never]

end Sound

/-- A worker deletes the key of a job that is not fresh only while none waits. -/
theorem Exclusive.pending_eq_zero (exclusive : Exclusive deployment state event)
    (sound : Sound deployment state) {job : FetchedJob} (deleter : deleter? state event = some job)
    (own : Worker.uniqueKey deployment.ns job.toJob = key) (failed : ¬ job.rawJSON.isFresh key) :
    pending key state = 0 := by
  subst own
  rcases exclusive.2 job deleter with never | nothing
  · obtain ⟨id, index, value, present⟩ := gotUnique_of_deleter deleter
    exact (failed (sound.isFresh_of_fails (List.mem_of_getElem? present) rfl never)).elim
  · exact nothing

namespace Reserved

/-- Nothing waits while the key is not set. -/
theorem pending_eq_zero (reserved : Reserved key state) (absent : state.redis.unique key = none) :
    pending key state = 0 := by
  rcases reserved with nothing | ⟨_, _, present, _⟩
  · exact nothing
  · exact (present absent).elim

theorem step (reserved : Reserved key state) (sound : Sound deployment state)
    (nonempty : key ≠ "") (exclusive : Exclusive deployment state event)
    (stepped : System.step deployment state event = some next) : Reserved key next := by
  cases step_flow sound nonempty exclusive.1 stepped with
  | same _ waiting kept =>
      rw [Reserved, waiting, kept]
      exact reserved
  | enqueued _ _ absent more set =>
      rw [Reserved, more, reserved.pending_eq_zero absent, zero_add]
      exact .single _ (by rw [set]; simp)
  | repeated _ _ absent _ waits => exact (waits (reserved.pending_eq_zero absent)).elim
  | updated _ _ _ waiting set =>
      rw [Reserved, waiting]
      exact reserved.mono fun _ _ _ _ => by rw [set]; simp
  | moved _ _ before after kept =>
      obtain ⟨nothing, present⟩ := reserved.take before
      rw [Reserved, after, nothing, zero_add, kept]
      exact .single _ present
  | dropped _ _ fewer | deleted _ _ _ fewer => exact .inl (reserved.take fewer).1
  | stale _ deleter own failed waiting =>
      exact .inl (waiting.trans (exclusive.pending_eq_zero sound deleter own failed))

theorem reachable (reached : (system deployment).Reachable (Exclusive deployment) state)
    (nonempty : key ≠ "") : Reserved key state := by
  refine reached.invariant (Reserved key) ?_ ?_
  · intro start begun
    exact .inl (pending_initial begun)
  · intro source event target reachedSource reserved exclusive stepped
    have sound := Sound.reachable (reachedSource.mono fun _ _ exclusive => exclusive.1)
    exact reserved.step sound nonempty exclusive stepped

/-- A queue and the scheduled jobs together hold at most one job with the key that has never
failed. -/
theorem count_le (reserved : Reserved key state) (sound : Sound deployment state)
    (queue : String) :
    (state.redis.list (.jobs queue)).countP (RawJSON.neverFailed key) +
      (state.redis.zset .scheduled).members.countP (RawJSON.neverFailed key) ≤ 1 := by
  have queued : (state.redis.list (.jobs queue)).countP (RawJSON.neverFailed key) ≤
      (state.redis.list (.jobs queue)).countP (RawJSON.isFresh key) := by
    refine List.countP_mono_left fun raw member => ?_
    exact RawJSON.isFresh_of_neverFailed
      (sound.keyed.store.lists (.jobs queue) raw member).unambiguous
      (sound.counts.store.lists (.jobs queue) raw member)
  have scheduled : (state.redis.zset .scheduled).members.countP (RawJSON.neverFailed key) ≤
      (state.redis.zset .scheduled).members.countP (RawJSON.isFresh key) := by
    refine List.countP_mono_left fun raw member => ?_
    obtain ⟨_, counted⟩ := sound.counts.store.zsets .scheduled raw member
    obtain ⟨_, keyed⟩ := sound.keyed.store.zsets .scheduled raw member
    exact RawJSON.isFresh_of_neverFailed keyed.unambiguous counted
  have together := reserved.card_add_card_le
    (by simp : WaitingPlace.queue queue ≠ WaitingPlace.scheduled)
  rw [pending, pending, RawJSON.card_candidates, RawJSON.card_candidates] at together
  omega

end Reserved

/-- In every run in which a worker deletes the key of a failed job only while no job that
has never failed waits for the key, a queue and the scheduled jobs together hold at most one
such job for every unique key. -/
theorem at_most_one_pending
    (reached : (system deployment).Reachable (Exclusive deployment) state)
    (jobName : String) (keyMap : Args) (queue : String) :
    (state.redis.list (.jobs queue)).countP
        (RawJSON.neverFailed (redisKeyUniqueJob deployment.ns jobName keyMap)) +
      (state.redis.zset .scheduled).members.countP
        (RawJSON.neverFailed (redisKeyUniqueJob deployment.ns jobName keyMap)) ≤ 1 := by
  have sound := Sound.reachable (reached.mono fun _ _ exclusive => exclusive.1)
  exact (Reserved.reachable reached
    (redisKeyUniqueJob_ne_empty deployment.ns jobName keyMap)).count_le sound queue

/-- A unique job of the queue without arguments, as it is after some failures. -/
def uniqueSend (id : String) (enqueuedAt fails : Int64) (lastErr : String) : Job :=
  { Enqueuer.uniqueJob single.ns "send" id enqueuedAt none none with fails, lastErr }

/-- A unique call without arguments. -/
def enqueueSend (id : String) : Event := .enqueuer (.enqueueUnique "send" id 0 none none none)

/-- The worker fetches a unique job and deletes its key. -/
def startUnique : List Event :=
  [.fetch ["send"] .ok, .getUnique .ok, .delUnique .ok].map fun event => .pool "A" (.worker 0 event)

/-- The worker ends the run of its job. -/
def endRun (after : Job) (error : Option String) : Event :=
  .pool "A" (.worker 0 (.finish { completed "" "" with after, error } .ok))

/-- A unique job fails and is put back on its queue. -/
def failedOnce : List Event :=
  boot ["send"] "A" ++ [enqueueSend "1"] ++ startUnique ++
    [endRun (uniqueSend "1" 0 0 "") (some "failed"), .pool "A" (.requeue .retry 0)]

theorem at_most_one_pending_after_failure :
    ∃ state, (system single).Reachable (Exclusive single) state ∧
      (state.redis.list (.jobs "send")).length = 2 ∧
      (state.redis.list (.jobs "send")).countP
          (RawJSON.neverFailed (redisKeyUniqueJob single.ns "send" none)) +
        (state.redis.zset .scheduled).members.countP
          (RawJSON.neverFailed (redisKeyUniqueJob single.ns "send" none)) ≤ 1 := by
  have run : ∃ state, (system single).Reachable (fun state event => Ordinary state event ∧
        ∀ job ∈ deleter? state event, job.fails = 0) state ∧
      (state.redis.list (.jobs "send")).length = 2 :=
    TransitionSystem.Reachable.exists_of_run (failedOnce ++ [enqueueSend "2"])
      initial_emptyState (by decide +kernel)
  obtain ⟨state, reached, queued⟩ := run
  have exclusive : (system single).Reachable (Exclusive single) state :=
    reached.mono fun _ _ scope => ⟨scope.1, fun job deleter => .inl (scope.2 job deleter)⟩
  exact ⟨state, exclusive, queued, at_most_one_pending exclusive "send" none "send"⟩

/-- The retry of a failed job deletes the key of a job that has been enqueued since, and a
third one is enqueued next to it. -/
theorem two_pending_after_retry :
    ∃ state, (system single).Reachable Ordinary state ∧
      (state.redis.list (.jobs "send")).countP
        (RawJSON.neverFailed (redisKeyUniqueJob single.ns "send" none)) = 2 :=
  TransitionSystem.Reachable.exists_of_run
    (failedOnce ++ [enqueueSend "2"] ++ startUnique ++
      [endRun (uniqueSend "1" 0 1 "failed") none, enqueueSend "3"])
    initial_emptyState (by decide +kernel)

end System
