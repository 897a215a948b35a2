import WorkQueue.Foundation.Contents
import WorkQueue.Unique.Ordinary

/-! # How the jobs of a unique key move

A unique job waits on its queue, among the scheduled jobs, or with a worker that has
fetched it and has not deleted its key yet. A step of an ordinary run adds a waiting job
only when it sets a free key, moves one, or takes one away, and it is always known what
happens to the key (`System.step_flow`).
-/

/-- A fresh job that waits, with the value of its key once a worker has read it. -/
structure Candidate where
  payload : RawJSON
  read : Option RawJSON
  deriving DecidableEq

/-- Where a unique job waits. -/
inductive WaitingPlace where
  | queue (name : String)
  | scheduled
  | held (id : PoolID)
  deriving DecidableEq

/-- A payload waits if it is that of a fresh job with the key. -/
def RawJSON.candidates (key : String) (raw : RawJSON) : Multiset Candidate :=
  if raw.isFresh key then {⟨raw, none⟩} else 0

theorem RawJSON.candidates_of_fresh {key : String} {raw : RawJSON} (fresh : raw.isFresh key) :
    raw.candidates key = {⟨raw, none⟩} := if_pos fresh

theorem RawJSON.candidates_of_not_fresh {key : String} {raw : RawJSON}
    (stale : ¬ raw.isFresh key) : raw.candidates key = 0 := if_neg stale

namespace Worker

/-- A fresh job with the key waits with its worker until the worker deletes the key. -/
def State.candidates (key : String) : State → Multiset Candidate
  | .fetched job => job.rawJSON.candidates key
  | .gotUnique job value =>
      if job.rawJSON.isFresh key then {⟨job.rawJSON, some value⟩} else 0
  | _ => 0

theorem candidates_running (key : String) (job : FetchedJob) (raw : RawJSON) :
    (State.running job raw).candidates key = 0 := rfl

theorem candidates_received {raw : RawJSON} {source target : ListKey} {job : FetchedJob}
    (unambiguous : raw.Unambiguous) (decoded : newJob raw source target = some job) (key : String) :
    (received (some (some (raw, source, target)))).candidates key = raw.candidates key := by
  obtain ⟨same, -⟩ := newJob_eq_some decoded
  rw [received_some, decoded]
  dsimp only
  split
  · rw [State.candidates, same]
  · next plain =>
      refine (RawJSON.candidates_of_not_fresh ?_).symm
      intro fresh
      exact plain ((newJob_unique unambiguous decoded).symm.trans
        (RawJSON.isFresh_iff.mp fresh).1)

/-- A fresh job with a key is looked up under the key. -/
theorem uniqueKey_of_isFresh {ns key : String} {job : FetchedJob} (nonempty : key ≠ "")
    (unambiguous : job.rawJSON.Unambiguous)
    (genuine : newJob job.rawJSON job.dequeuedFrom job.inProgQueue = some job)
    (fresh : job.rawJSON.isFresh key) : uniqueKey ns job.toJob = key := by
  obtain ⟨-, present, -⟩ := RawJSON.isFresh_iff.mp fresh
  have own : job.uniqueKey = key :=
    Option.some.inj ((newJob_textField unambiguous genuine).2.2.symm.trans present)
  rw [uniqueKey, own, if_neg nonempty]

end Worker

namespace System

variable {deployment : Deployment} {state next : State} {event : Event} {key : String}

/-- The fresh jobs with a key that wait in a place. -/
def pending (key : String) (state : State) : WaitingPlace → Multiset Candidate
  | .queue name => ((state.redis.list (.jobs name)).map (RawJSON.candidates key)).sum
  | .scheduled => ((state.redis.zset .scheduled).members.map (RawJSON.candidates key)).sum
  | .held id => ((state.pools id).workers.map (Worker.State.candidates key)).sum

/-- How a waiting job goes on: it is fetched as it is, its key is read, or a requeuer
rewrites it. -/
inductive Carried (key : String) (state : State) (event : Event) : Candidate → Candidate → Prop
  | fetched {raw : RawJSON} : Carried key state event ⟨raw, none⟩ ⟨raw, none⟩
  | read {raw value : RawJSON} : state.redis.unique key = some value →
      Carried key state event ⟨raw, none⟩ ⟨raw, some value⟩
  | requeued {id : PoolID} {now : Int64} {raw written : RawJSON} {lua : Json} :
      event = .pool id (.requeue .scheduled now) →
      ((state.redis.zset .scheduled).upTo now.toInt).head? = some raw → raw.isFresh key →
      Cjson.decode raw = some lua → Cjson.encode (Store.requeuedJob now lua) = some written →
      Carried key state event ⟨raw, none⟩ ⟨written, none⟩

/-- How a waiting job is given up without its key being deleted: its worker runs it as it
is, or a requeuer cannot put it on a queue. -/
inductive Dropped (deployment : Deployment) (key : String) (state : State) (event : Event) :
    Candidate → Prop
  | unread {id : PoolID} {index : ℕ} {reply : Reply} {raw : RawJSON} :
      event = .pool id (.worker index (.getUnique reply)) →
      (reply = .ok → state.redis.unique key = none) →
      Dropped deployment key state event ⟨raw, none⟩
  | undeleted {id : PoolID} {index : ℕ} {candidate : Candidate} :
      event = .pool id (.worker index (.delUnique .failed)) →
      Dropped deployment key state event candidate
  | refused {id : PoolID} {now : Int64} {raw : RawJSON} {lua : Json} :
      event = .pool id (.requeue .scheduled now) →
      ((state.redis.zset .scheduled).upTo now.toInt).head? = some raw → raw.isFresh key →
      Cjson.decode raw = some lua →
      (state.redis.redisLuaZremLpushCmd .scheduled (deployment.pool id).names now).2 ≠ .ok →
      Dropped deployment key state event ⟨raw, none⟩

/-- The arguments that a unique call on a key sends, as a handler sees them. -/
def sent? (ns key : String) : Event → Option Args
  | .enqueuer (.enqueueUnique name id now args keyMap _) =>
      if (Enqueuer.uniqueJob ns name id now args keyMap).uniqueKey = key then
        some (Enqueuer.uniqueJob ns name id now args keyMap).normalise.args
      else none
  | _ => none

/-- What a step does to the waiting jobs of a key and to the key. -/
inductive Flow (deployment : Deployment) (key : String) (state next : State) (event : Event) :
    Prop
  | same : sent? deployment.ns key event = none → pending key next = pending key state →
      next.redis.unique key = state.redis.unique key → Flow deployment key state next event
  | enqueued {name id : String} {now : Int64} {args keyMap : Args} {runAt : Option Int64}
      {place : WaitingPlace} :
      event = .enqueuer (.enqueueUnique name id now args keyMap runAt) →
      (Enqueuer.uniqueJob deployment.ns name id now args keyMap).uniqueKey = key →
      state.redis.unique key = none →
      pending key next = pending key state + Pi.single place
        {⟨.json (Enqueuer.uniqueJob deployment.ns name id now args keyMap).serialize, none⟩} →
      next.redis.unique key = some (Enqueuer.updatedValue keyMap
        (Enqueuer.uniqueJob deployment.ns name id now args keyMap)) →
      Flow deployment key state next event
  | repeated {name id : String} {now : Int64} {args keyMap : Args} {runAt : Option Int64} :
      event = .enqueuer (.enqueueUnique name id now args keyMap runAt) →
      (Enqueuer.uniqueJob deployment.ns name id now args keyMap).uniqueKey = key →
      state.redis.unique key = none → pending key next = pending key state →
      pending key state ≠ 0 →
      next.redis.unique key = some (Enqueuer.updatedValue keyMap
        (Enqueuer.uniqueJob deployment.ns name id now args keyMap)) →
      Flow deployment key state next event
  | updated {name id : String} {now : Int64} {args keyMap : Args} {runAt : Option Int64} :
      event = .enqueuer (.enqueueUnique name id now args keyMap runAt) →
      (Enqueuer.uniqueJob deployment.ns name id now args keyMap).uniqueKey = key →
      state.redis.unique key ≠ none → pending key next = pending key state →
      next.redis.unique key = some (Enqueuer.updatedValue keyMap
        (Enqueuer.uniqueJob deployment.ns name id now args keyMap)) →
      Flow deployment key state next event
  | moved {rest : WaitingPlace → Multiset Candidate} {source target : WaitingPlace}
      {before after : Candidate} : sent? deployment.ns key event = none →
      Carried key state event before after →
      pending key state = rest + Pi.single source {before} →
      pending key next = rest + Pi.single target {after} →
      next.redis.unique key = state.redis.unique key → Flow deployment key state next event
  | dropped {place : WaitingPlace} {candidate : Candidate} :
      sent? deployment.ns key event = none → Dropped deployment key state event candidate →
      pending key state = pending key next + Pi.single place {candidate} →
      next.redis.unique key = state.redis.unique key → Flow deployment key state next event
  | deleted {place : WaitingPlace} {candidate : Candidate} {job : FetchedJob} :
      sent? deployment.ns key event = none → deleter? state event = some job →
      Worker.uniqueKey deployment.ns job.toJob = key →
      pending key state = pending key next + Pi.single place {candidate} →
      next.redis.unique key = none → Flow deployment key state next event
  | stale {job : FetchedJob} : sent? deployment.ns key event = none →
      deleter? state event = some job →
      Worker.uniqueKey deployment.ns job.toJob = key → ¬ job.rawJSON.isFresh key →
      pending key next = pending key state → next.redis.unique key = none →
      Flow deployment key state next event

section Pending

variable {id : PoolID} {index : ℕ} {worker worker' : Worker.State}

/-- A step of a worker that leaves the queues alone. -/
theorem exists_rest_worker (present : (state.pools id).workers[index]? = some worker)
    (workers : (next.pools id).workers = (state.pools id).workers.set index worker')
    (elsewhere : ∀ other, other ≠ id → next.pools other = state.pools other)
    (queues : ∀ name, next.redis.list (.jobs name) = state.redis.list (.jobs name))
    (scheduled : next.redis.zset .scheduled = state.redis.zset .scheduled) (key : String) :
    ∃ rest : WaitingPlace → Multiset Candidate,
      pending key state = rest + Pi.single (.held id) (worker.candidates key) ∧
      pending key next = rest + Pi.single (.held id) (worker'.candidates key) := by
  obtain ⟨rest, before, after⟩ :=
    List.exists_sum_set present worker' (Worker.State.candidates key)
  refine ⟨Function.update (pending key state) (.held id) rest, eq_add_single ?_ ?_,
    eq_add_single ?_ ?_⟩
  · rw [Function.update_self]
    exact before
  · intro other apart
    rw [Function.update_of_ne apart]
  · rw [Function.update_self, pending, workers]
    exact after
  · intro other apart
    rw [Function.update_of_ne apart]
    cases other with
    | queue name => rw [pending, pending, queues]
    | scheduled => rw [pending, pending, scheduled]
    | held other =>
        have different : other ≠ id := fun same => apart (by rw [same])
        rw [pending, pending, elsewhere other different]

/-- A worker fetches a payload and waits with it. -/
theorem exists_rest_fetch (present : (state.pools id).workers[index]? = some .idle)
    (workers : (next.pools id).workers = (state.pools id).workers.set index worker')
    (elsewhere : ∀ other, other ≠ id → next.pools other = state.pools other)
    {name : String} {raw : RawJSON} {front : List RawJSON}
    (split : state.redis.list (.jobs name) = front ++ [raw])
    (moved : next.redis = (state.redis.acquireLock name id).move (.jobs name)
      (.inProgress id name) front raw) (key : String) :
    ∃ rest : WaitingPlace → Multiset Candidate,
      pending key state = rest + Pi.single (.queue name) (raw.candidates key) ∧
      pending key next = rest + Pi.single (.held id) (worker'.candidates key) := by
  obtain ⟨rest, before, after⟩ :=
    List.exists_sum_set present worker' (Worker.State.candidates key)
  have free : Worker.State.idle.candidates key = 0 := rfl
  rw [free, add_zero] at before
  refine exists_rest_single (by simp) ?_ ?_ ?_
  · rw [pending, pending, moved, Store.list_move_source (by simp), split, List.map_append,
      List.sum_append, List.map_singleton, List.sum_singleton]
  · rw [pending, pending, workers, after, before]
  · intro other apart distinct
    cases other with
    | queue other =>
        have different : other ≠ name := fun same => apart (by rw [same])
        rw [pending, pending, moved, Store.list_move_of_ne (by simp [different]) (by simp),
          Store.list_acquireLock]
    | scheduled =>
        rw [pending, pending, moved]
        rfl
    | held other =>
        have different : other ≠ id := fun same => distinct (by rw [same])
        rw [pending, pending, elsewhere other different]

end Pending

section WorkerFlow

variable {id : PoolID} {index : ℕ} {worker worker' : Worker.State} {workerEvent : Worker.Event}

/-- A worker that fetches a payload, or none. -/
theorem flow_taken (sound : Sound deployment state)
    (ordinary : Ordinary state (.pool id (.worker index workerEvent)))
    (present : (state.pools id).workers[index]? = some .idle)
    (workers : (next.pools id).workers = (state.pools id).workers.set index worker')
    (elsewhere : ∀ other, other ≠ id → next.pools other = state.pools other)
    {order : List String} {reply : Reply} {name : String} {raw : RawJSON} {front : List RawJSON}
    (fetch : workerEvent = .fetch order reply) (executed : reply ≠ .failed)
    (split : state.redis.list (.jobs name) = front ++ [raw])
    (answer : (state.redis.redisLuaFetchJob id order).2 =
      some (raw, .jobs name, .inProgress id name))
    (moved : next.redis = (state.redis.acquireLock name id).move (.jobs name)
      (.inProgress id name) front raw)
    (waits : worker' = if reply = .ok then
      Worker.received (some (some (raw, .jobs name, .inProgress id name))) else .idle) :
    Flow deployment key state next (.pool id (.worker index workerEvent)) := by
  subst fetch
  obtain ⟨-, -, ⟨-, undisturbed⟩, -⟩ := ordinary
  obtain ⟨arrived, readable⟩ := undisturbed _ present
  have ok : reply = .ok := by
    cases reply with
    | ok => rfl
    | lost => exact (arrived rfl).elim
    | failed => exact (executed rfl).elim
  obtain ⟨job, decoded, -⟩ := readable ok _ answer
  have kept : next.redis.unique key = state.redis.unique key := by
    rw [moved]
    rfl
  have unambiguous := (sound.keyed.store.lists (.jobs name) raw (by rw [split]; simp)).unambiguous
  obtain ⟨rest, before, after⟩ := exists_rest_fetch present workers elsewhere split moved key
  rw [waits, if_pos ok, Worker.candidates_received unambiguous decoded] at after
  by_cases fresh : raw.isFresh key
  · rw [RawJSON.candidates_of_fresh fresh] at before after
    exact .moved rfl .fetched before after kept
  · rw [RawJSON.candidates_of_not_fresh fresh, Pi.single_zero] at before after
    exact .same rfl (after.trans before.symm) kept

/-- A worker that deletes the key of its job. -/
theorem flow_deleted (sound : Sound deployment state) (nonempty : key ≠ "")
    {job : FetchedJob} {value : RawJSON}
    (present : (state.pools id).workers[index]? = some (.gotUnique job value))
    (workers : (next.pools id).workers = (state.pools id).workers.set index worker')
    (elsewhere : ∀ other, other ≠ id → next.pools other = state.pools other)
    {reply : Reply} (executed : reply ≠ .failed)
    (moved : next.redis = state.redis.setUnique (Worker.uniqueKey deployment.ns job.toJob) none)
    (started : worker'.candidates key = 0) :
    Flow deployment key state next (.pool id (.worker index (.delUnique reply))) := by
  have deleter : deleter? state (.pool id (.worker index (.delUnique reply))) = some job := by
    simp only [deleter?, executed, ↓reduceIte, present, Option.bind_some,
      Worker.State.updating?, Option.map_some]
  obtain ⟨rest, before, after⟩ := exists_rest_worker present workers elsewhere
    (fun _ => by rw [moved]; rfl) (by rw [moved]; rfl) key
  rw [started, Pi.single_zero, add_zero] at after
  by_cases own : Worker.uniqueKey deployment.ns job.toJob = key
  · have deleted : next.redis.unique key = none := by
      rw [moved, own, Store.unique_setUnique_self]
    by_cases fresh : job.rawJSON.isFresh key
    · rw [Worker.State.candidates, if_pos fresh] at before
      exact .deleted rfl deleter own (after ▸ before) deleted
    · rw [Worker.State.candidates, if_neg fresh, Pi.single_zero, add_zero] at before
      exact .stale rfl deleter own fresh (after.trans before.symm) deleted
  · have kept : next.redis.unique key = state.redis.unique key := by
      rw [moved, Store.unique_setUnique_of_ne _ (Ne.symm own)]
    have stale : ¬ job.rawJSON.isFresh key := fun fresh => own
      (Worker.uniqueKey_of_isFresh nonempty
        (sound.unambiguous_held (List.mem_of_getElem? present) rfl)
        (sound.genuine id _ (List.mem_of_getElem? present) job rfl).1 fresh)
    rw [Worker.State.candidates, if_neg stale, Pi.single_zero, add_zero] at before
    exact .same rfl (after.trans before.symm) kept

/-- What a step of a worker does to a key and its waiting jobs. -/
theorem flow_worker (sound : Sound deployment state) (nonempty : key ≠ "")
    (ordinary : Ordinary state (.pool id (.worker index workerEvent)))
    (present : (state.pools id).workers[index]? = some worker)
    (workers : (next.pools id).workers = (state.pools id).workers.set index worker')
    (elsewhere : ∀ other, other ≠ id → next.pools other = state.pools other)
    (moved : Worker.Case deployment.ns (deployment.pool id) id state.redis worker workerEvent
      next.redis worker') :
    Flow deployment key state next (.pool id (.worker index workerEvent)) := by
  have genuine := sound.genuine id worker (List.mem_of_getElem? present)
  have unambiguous : ∀ job, worker.holds? = some job → job.rawJSON.Unambiguous := fun _ =>
    sound.unambiguous_held (List.mem_of_getElem? present)
  have held := sound.names.workers id worker (List.mem_of_getElem? present)
  generalize after : next.redis = redis at moved
  have quiet : next.redis = state.redis → worker'.candidates key = 0 →
      worker.candidates key = 0 → Flow deployment key state next
        (.pool id (.worker index workerEvent)) := by
    intro same started free
    obtain ⟨rest, before, later⟩ := exists_rest_worker present workers elsewhere
      (fun _ => by rw [same]) (by rw [same]) key
    rw [started] at later
    rw [free] at before
    exact .same rfl (later.trans before.symm) (by rw [same])
  cases moved with
  | nothing | unfinished | stopped => exact quiet after rfl rfl
  | taken _ executed split _ _ answer =>
      exact flow_taken sound ordinary present workers elsewhere rfl executed split answer after rfl
  | @got job value found =>
      obtain ⟨rest, before, later⟩ := exists_rest_worker present workers elsewhere
        (fun _ => by rw [after]) (by rw [after]) key
      by_cases fresh : job.rawJSON.isFresh key
      · rw [Worker.State.candidates, RawJSON.candidates_of_fresh fresh] at before
        rw [Worker.State.candidates, if_pos fresh] at later
        rw [Worker.uniqueKey_of_isFresh nonempty (unambiguous job rfl) (genuine job rfl).1 fresh]
          at found
        exact .moved rfl (.read found) before later (by rw [after])
      · rw [Worker.State.candidates, RawJSON.candidates_of_not_fresh fresh] at before
        rw [Worker.State.candidates, if_neg fresh] at later
        exact .same rfl (later.trans before.symm) (by rw [after])
  | @missed job reply absent =>
      by_cases fresh : job.rawJSON.isFresh key
      · obtain ⟨rest, before, later⟩ := exists_rest_worker present workers elsewhere
          (fun _ => by rw [after]) (by rw [after]) key
        rw [Worker.State.candidates, RawJSON.candidates_of_fresh fresh] at before
        rw [Worker.candidates_running, Pi.single_zero, add_zero] at later
        rw [Worker.uniqueKey_of_isFresh nonempty (unambiguous job rfl) (genuine job rfl).1 fresh]
          at absent
        exact .dropped rfl (.unread rfl absent) (later ▸ before) (by rw [after])
      · exact quiet after rfl (RawJSON.candidates_of_not_fresh fresh)
  | deleted | unanswered =>
      exact flow_deleted sound nonempty present workers elsewhere (by decide) after rfl
  | @undeleted job value =>
      by_cases fresh : job.rawJSON.isFresh key
      · obtain ⟨rest, before, later⟩ := exists_rest_worker present workers elsewhere
          (fun _ => by rw [after]) (by rw [after]) key
        rw [Worker.State.candidates, if_pos fresh] at before
        rw [Worker.candidates_running, Pi.single_zero, add_zero] at later
        exact .dropped rfl (.undeleted rfl) (later ▸ before) (by rw [after])
      · exact quiet after rfl (if_neg fresh)
  | @finished job raw finish reply executed =>
      obtain ⟨name, -, progress, -⟩ := held
      have queues : ∀ other, next.redis.list (.jobs other) = state.redis.list (.jobs other) := by
        intro other
        rw [after, Worker.list_removeJobFromInProgress, progress,
          Store.list_lrem_of_ne (by simp)]
      have scheduled : next.redis.zset .scheduled = state.redis.zset .scheduled := by
        rw [after, Worker.zset_scheduled_removeJobFromInProgress]
      obtain ⟨rest, before, later⟩ := exists_rest_worker present workers elsewhere queues
        scheduled key
      refine .same rfl (later.trans before.symm) ?_
      rw [after, Worker.unique_removeJobFromInProgress]

end WorkerFlow

/-- The store changes in one place of the waiting jobs, and the workers do nothing. -/
theorem eq_add_single_store {place : WaitingPlace} {added : Multiset Candidate}
    (workers : ∀ id, pending key next (.held id) = pending key state (.held id))
    (queues : ∀ name, place ≠ .queue name →
      next.redis.list (.jobs name) = state.redis.list (.jobs name))
    (scheduled : place ≠ .scheduled →
      next.redis.zset .scheduled = state.redis.zset .scheduled)
    (more : pending key next place = pending key state place + added) :
    pending key next = pending key state + Pi.single place added := by
  refine eq_add_single more ?_
  intro other apart
  cases other with
  | queue name => rw [pending, pending, queues name (Ne.symm apart)]
  | scheduled => rw [pending, pending, scheduled (Ne.symm apart)]
  | held id => exact workers id

section StoreFlow

/-- A payload is pushed on a queue. -/
theorem pending_lpush (workers : ∀ id, pending key next (.held id) = pending key state (.held id))
    {name : String} {raw : RawJSON}
    (pushed : next.redis.list = (state.redis.lpush (.jobs name) raw).list)
    (scheduled : next.redis.zset .scheduled = state.redis.zset .scheduled) :
    pending key next = pending key state + Pi.single (.queue name) (raw.candidates key) := by
  refine eq_add_single_store workers ?_ (fun _ => scheduled) ?_
  · intro other apart
    rw [pushed, Store.list_lpush_of_ne (by simpa using fun same => apart (by rw [same]))]
  · rw [pending, pending, pushed, Store.list_lpush_self, List.map_cons, List.sum_cons, add_comm]

/-- A payload that has not been scheduled before is scheduled. -/
theorem pending_zadd (workers : ∀ id, pending key next (.held id) = pending key state (.held id))
    {score : Int} {raw : RawJSON}
    (queues : ∀ name, next.redis.list (.jobs name) = state.redis.list (.jobs name))
    (added : next.redis.zset .scheduled = (state.redis.zset .scheduled).add score raw)
    (absent : raw.isFresh key → raw ∉ (state.redis.zset .scheduled).members) :
    pending key next = pending key state + Pi.single .scheduled (raw.candidates key) := by
  refine eq_add_single_store workers (fun name _ => queues name) (by simp) ?_
  rw [pending, pending, added, SortedSet.sum_add]
  by_cases fresh : raw.isFresh key
  · rw [SortedSet.members_erase, List.erase_of_not_mem (absent fresh)]
  · rw [SortedSet.sum_erase_of_eq_zero _ (RawJSON.candidates_of_not_fresh fresh)]

/-- A payload that is scheduled already only changes its time. -/
theorem pending_zadd_of_mem
    (workers : ∀ id, pending key next (.held id) = pending key state (.held id))
    {score : Int} {raw : RawJSON}
    (queues : ∀ name, next.redis.list (.jobs name) = state.redis.list (.jobs name))
    (added : next.redis.zset .scheduled = (state.redis.zset .scheduled).add score raw)
    (present : raw ∈ (state.redis.zset .scheduled).members) :
    pending key next = pending key state := by
  funext place
  cases place with
  | queue name => rw [pending, pending, queues]
  | scheduled =>
      rw [pending, pending, added, SortedSet.sum_add]
      exact (SortedSet.sum_erase _ present).symm
  | held id => exact workers id

/-- A fresh scheduled payload waits. -/
theorem pending_ne_zero_of_scheduled {raw : RawJSON} (fresh : raw.isFresh key)
    (member : raw ∈ (state.redis.zset .scheduled).members) : pending key state .scheduled ≠ 0 := by
  rw [pending, SortedSet.sum_erase _ member, RawJSON.candidates_of_fresh fresh]
  simp

/-- The workers wait with what they have in a step that is not theirs. -/
theorem pending_held (sound : Sound deployment state)
    (stepped : step deployment state event = some next)
    (notWorker : ∀ id index workerEvent, event ≠ .pool id (.worker index workerEvent))
    (id : PoolID) : pending key next (.held id) = pending key state (.held id) := by
  rcases step_pool_cases stepped id with ⟨_, same⟩ | ⟨poolEvent, rfl, moved⟩
  · rw [pending, pending, same]
  · rcases moved.workers_eq (fun index workerEvent same => notWorker id index workerEvent
      (by rw [same])) with same | ⟨phase, idle⟩
    · rw [pending, pending, same]
    · have before : pending key state (.held id) = 0 := by
        refine List.sum_eq_zero ?_
        intro value member
        obtain ⟨worker, present, rfl⟩ := List.mem_map.mp member
        rw [sound.regular.stopped id (by rw [phase]; rfl) worker present]
        rfl
      have after : pending key next (.held id) = 0 := by
        refine List.sum_eq_zero ?_
        intro value member
        obtain ⟨worker, present, rfl⟩ := List.mem_map.mp member
        rw [idle worker present]
        rfl
      rw [before, after]

/-- Only the unique keys and the other sorted sets change. -/
theorem pending_eq_of_same
    (workers : ∀ id, pending key next (.held id) = pending key state (.held id))
    (queues : ∀ name, next.redis.list (.jobs name) = state.redis.list (.jobs name))
    (scheduled : next.redis.zset .scheduled = state.redis.zset .scheduled) :
    pending key next = pending key state := by
  funext place
  cases place with
  | queue name => rw [pending, pending, queues]
  | scheduled => rw [pending, pending, scheduled]
  | held id => exact workers id

/-- What a unique call does to the key and its waiting jobs. -/
theorem flow_unique {name id : String} {now : Int64} {args keyMap : Args}
    {runAt : Option Int64}
    (workers : ∀ id, pending key next (.held id) = pending key state (.held id))
    (executed : next.redis = Enqueuer.execute deployment.ns state.redis
      (.enqueueUnique name id now args keyMap runAt)) :
    Flow deployment key state next (.enqueuer (.enqueueUnique name id now args keyMap runAt)) := by
  have outcome := Enqueuer.execute_unique_cases deployment.ns state.redis name id now args keyMap
    runAt
  obtain ⟨job, written⟩ : ∃ job, Enqueuer.uniqueJob deployment.ns name id now args keyMap = job :=
    ⟨_, rfl⟩
  have fresh : (RawJSON.json job.serialize).isFresh key ↔ job.uniqueKey = key := by
    rw [RawJSON.isFresh_serialize, ← written]
    simp [Enqueuer.uniqueJob, Enqueuer.plainJob]
  rw [← executed, written] at outcome
  generalize after : next.redis = redis at outcome
  have keyed : redis.unique = (state.redis.setUnique job.uniqueKey
      (some (Enqueuer.updatedValue keyMap job))).unique := by
    cases outcome with
    | _ => rfl
  by_cases own : job.uniqueKey = key
  · have set : next.redis.unique key = some (Enqueuer.updatedValue keyMap job) := by
      rw [after, keyed, own, Store.unique_setUnique_self]
    have waits := RawJSON.candidates_of_fresh (fresh.mpr own)
    subst written own
    cases outcome with
    | duplicate present =>
        exact .updated rfl rfl present
          (pending_eq_of_same workers (fun _ => by rw [after]; rfl) (by rw [after]; rfl)) set
    | queued absent =>
        have more := pending_lpush workers (by rw [after]; rfl) (by rw [after]; rfl)
        exact .enqueued rfl rfl absent (waits ▸ more) set
    | scheduled absent =>
        by_cases present : RawJSON.json
            (Enqueuer.uniqueJob deployment.ns name id now args keyMap).serialize ∈
              (state.redis.zset .scheduled).members
        · refine .repeated rfl rfl absent ?_ ?_ set
          · exact pending_zadd_of_mem workers (fun _ => by rw [after]; rfl)
              (by rw [after, Store.zset_zadd_self]; rfl) present
          · intro nothing
            exact pending_ne_zero_of_scheduled (fresh.mpr rfl) present (congrFun nothing _)
        · have more := pending_zadd workers (fun _ => by rw [after]; rfl)
            (by rw [after, Store.zset_zadd_self]; rfl) fun _ => present
          exact .enqueued rfl rfl absent (waits ▸ more) set
  · have kept : next.redis.unique key = state.redis.unique key := by
      rw [after, keyed, Store.unique_setUnique_of_ne _ (Ne.symm own)]
    have stale : ¬ (RawJSON.json job.serialize).isFresh key := fun other => own (fresh.mp other)
    refine .same (by rw [sent?, written, if_neg own]) ?_ kept
    cases outcome with
    | duplicate present =>
        exact pending_eq_of_same workers (fun _ => by rw [after]; rfl) (by rw [after]; rfl)
    | queued absent =>
        rw [pending_lpush workers (by rw [after]; rfl) (by rw [after]; rfl),
          RawJSON.candidates_of_not_fresh stale, Pi.single_zero, add_zero]
    | scheduled absent =>
        rw [pending_zadd workers (fun _ => by rw [after]; rfl)
          (by rw [after, Store.zset_zadd_self]; rfl) (fun fresh => (stale fresh).elim),
          RawJSON.candidates_of_not_fresh stale, Pi.single_zero, add_zero]

/-- What any command of an enqueuer does to a key and its waiting jobs. -/
theorem flow_called {call : Enqueuer.Call}
    (workers : ∀ id, pending key next (.held id) = pending key state (.held id))
    (executed : next.redis = Enqueuer.execute deployment.ns state.redis call) :
    Flow deployment key state next (.enqueuer call) := by
  have plain : ∀ name id now args,
      ¬ (RawJSON.json (Enqueuer.plainJob name id now args).serialize).isFresh key := by
    intro name id now args
    rw [RawJSON.isFresh_serialize]
    exact Bool.false_ne_true
  cases call with
  | enqueue name id now args =>
      refine .same rfl ?_ (by rw [executed]; rfl)
      rw [pending_lpush workers (by rw [executed]; rfl) (by rw [executed]; rfl),
        RawJSON.candidates_of_not_fresh (plain name id now args), Pi.single_zero, add_zero]
  | enqueueAt name id now args epochSeconds =>
      refine .same rfl ?_ (by rw [executed]; rfl)
      rw [pending_zadd workers (fun _ => by rw [executed]; rfl)
          (by rw [executed, Enqueuer.execute, Store.zset_zadd_self])
          (fun fresh => (plain name id now args fresh).elim),
        RawJSON.candidates_of_not_fresh (plain name id now args), Pi.single_zero, add_zero]
  | enqueueUnique name id now args keyMap runAt => exact flow_unique workers executed
  | addToKnownJobs name =>
      exact .same rfl (pending_eq_of_same workers (fun _ => by rw [executed]; rfl)
        (by rw [executed]; rfl)) (by rw [executed]; rfl)

/-- A requeuer takes a due payload off its set. -/
theorem pending_zrem (sound : Sound deployment state)
    (workers : ∀ id, pending key next (.held id) = pending key state (.held id))
    {set : ZSetKey} {raw : RawJSON} (alive : set ≠ .dead)
    (member : raw ∈ (state.redis.zset set).members)
    (queues : ∀ name, next.redis.list (.jobs name) = state.redis.list (.jobs name))
    (removed : next.redis.zset .scheduled = (state.redis.zrem set raw).zset .scheduled) :
    pending key state = pending key next + Pi.single .scheduled (raw.candidates key) := by
  refine eq_add_single_store (fun id => (workers id).symm)
    (fun name _ => (queues name).symm) (by simp) ?_
  cases set with
  | scheduled =>
      rw [pending, pending, removed, Store.zset_zrem_self]
      exact SortedSet.sum_erase _ member
  | retry =>
      have stale : ¬ raw.isFresh key := fun fresh =>
        sound.retried raw member (RawJSON.isFresh_iff.mp fresh).2.2
      rw [pending, pending, removed, Store.zset_zrem_of_ne _ (by simp),
        RawJSON.candidates_of_not_fresh stale, add_zero]
  | dead => exact (alive rfl).elim

/-- A requeuer that does not put the due payload on a queue. -/
theorem flow_refused (sound : Sound deployment state)
    (workers : ∀ id, pending key next (.held id) = pending key state (.held id))
    {id : PoolID} {set : ZSetKey} {now : Int64} {raw : RawJSON} {lua : Json}
    (alive : set ≠ .dead) (due : ((state.redis.zset set).upTo now.toInt).head? = some raw)
    (decoded : Cjson.decode raw = some lua)
    (queues : ∀ name, next.redis.list (.jobs name) = state.redis.list (.jobs name))
    (removed : next.redis.zset .scheduled = (state.redis.zrem set raw).zset .scheduled)
    (kept : next.redis.unique = state.redis.unique)
    (refused : (state.redis.redisLuaZremLpushCmd set (deployment.pool id).names now).2 ≠ .ok) :
    Flow deployment key state next (.pool id (.requeue set now)) := by
  have member := SortedSet.mem_of_mem_upTo (List.mem_of_head? due)
  have fewer : pending key state = pending key next + _ :=
    pending_zrem sound workers alive member queues removed
  by_cases fresh : raw.isFresh key
  · rw [RawJSON.candidates_of_fresh fresh] at fewer
    cases set with
    | scheduled => exact .dropped rfl (.refused rfl due fresh decoded refused) fewer (by rw [kept])
    | retry => exact (sound.retried raw member (RawJSON.isFresh_iff.mp fresh).2.2).elim
    | dead => exact (alive rfl).elim
  · rw [RawJSON.candidates_of_not_fresh fresh, Pi.single_zero, add_zero] at fewer
    exact .same rfl fewer.symm (by rw [kept])

/-- A requeuer that puts the due payload on its queue. -/
theorem flow_pushed (sound : Sound deployment state)
    (workers : ∀ id, pending key next (.held id) = pending key state (.held id))
    {id : PoolID} {set : ZSetKey} {now : Int64} {raw pushed : RawJSON} {lua : Json}
    {name : String} (alive : set ≠ .dead)
    (due : ((state.redis.zset set).upTo now.toInt).head? = some raw)
    (decoded : Cjson.decode raw = some lua)
    (encoded : Cjson.encode (Store.requeuedJob now lua) = some pushed)
    (executed : next.redis = (state.redis.zrem set raw).lpush (.jobs name) pushed) :
    Flow deployment key state next (.pool id (.requeue set now)) := by
  have member := SortedSet.mem_of_mem_upTo (List.mem_of_head? due)
  have present : ∃ own, raw.textField "unique_key" = some own := by
    obtain ⟨_, named⟩ := sound.names.store.zsets set raw member
    obtain ⟨own, found, -⟩ := named.keyed
    exact ⟨own, found⟩
  have carried : pushed.isFresh key = raw.isFresh key :=
    RawJSON.isFresh_rewritten decoded encoded present (Store.sameIdentity_requeuedJob now lua)
      (Store.field_requeuedJob now lua (by decide))
  -- The payload leaves its set before it is on its queue.
  have fewer : pending key state =
      pending key ⟨state.redis.zrem set raw, next.pools⟩ +
        Pi.single .scheduled (raw.candidates key) := by
    refine pending_zrem sound ?_ alive member (fun _ => rfl) rfl
    exact workers
  have more : pending key next = pending key ⟨state.redis.zrem set raw, next.pools⟩ +
      Pi.single (.queue name) (pushed.candidates key) := by
    refine pending_lpush ?_ ?_ ?_
    · exact fun _ => rfl
    · rw [executed]
    · rw [executed]
      rfl
  have kept : next.redis.unique key = state.redis.unique key := by
    rw [executed]
    rfl
  by_cases fresh : raw.isFresh key
  · rw [RawJSON.candidates_of_fresh fresh] at fewer
    rw [RawJSON.candidates_of_fresh (carried.trans fresh)] at more
    cases set with
    | scheduled => exact .moved rfl (.requeued rfl due fresh decoded encoded) fewer more kept
    | retry => exact (sound.retried raw member (RawJSON.isFresh_iff.mp fresh).2.2).elim
    | dead => exact (alive rfl).elim
  · rw [RawJSON.candidates_of_not_fresh fresh, Pi.single_zero, add_zero] at fewer
    rw [RawJSON.candidates_of_not_fresh (carried ▸ fresh), Pi.single_zero, add_zero] at more
    exact .same rfl (more.trans fewer.symm) kept

/-- What a requeuer does to a key and its waiting jobs. -/
theorem flow_requeued (sound : Sound deployment state)
    (workers : ∀ id, pending key next (.held id) = pending key state (.held id))
    {id : PoolID} {set : ZSetKey} {now : Int64} (alive : set ≠ .dead)
    (executed : next.redis =
      (state.redis.redisLuaZremLpushCmd set (deployment.pool id).names now).1) :
    Flow deployment key state next (.pool id (.requeue set now)) := by
  have outcome := state.redis.redisLuaZremLpushCmd_cases set (deployment.pool id).names now
  generalize answer : state.redis.redisLuaZremLpushCmd set (deployment.pool id).names now = result
    at outcome executed
  cases outcome with
  | nothing | undecodable =>
      exact .same rfl (pending_eq_of_same workers (fun _ => by rw [executed]) (by rw [executed]))
        (by rw [executed])
  | nameless due decoded | unpushable due decoded | unburiable due decoded =>
      exact flow_refused sound workers alive due decoded (fun _ => by rw [executed]; rfl)
        (by rw [executed]) (by rw [executed]; rfl) (by rw [answer]; simp)
  | buried due decoded =>
      refine flow_refused sound workers alive due decoded (fun _ => by rw [executed]; rfl) ?_
        (by rw [executed]; rfl) (by rw [answer]; simp)
      rw [executed, Store.zset_zadd_of_ne _ (by simp)]
  | requeued due decoded named registered encoded =>
      exact flow_pushed sound workers alive due decoded encoded executed

end StoreFlow

/-- What a step of an ordinary run does to a key and its waiting jobs. -/
theorem step_flow (sound : Sound deployment state) (nonempty : key ≠ "")
    (ordinary : Ordinary state event) (stepped : step deployment state event = some next) :
    Flow deployment key state next event := by
  cases step_supply stepped with
  | same waiting notWorker notCalled =>
      have silent : sent? deployment.ns key event = none := by
        cases event with
        | enqueuer call => exact (notCalled call rfl).elim
        | _ => rfl
      exact .same silent (pending_eq_of_same (pending_held sound stepped notWorker) waiting.queues
        (waiting.zset .scheduled (by simp))) (by rw [waiting.unique])
  | called called executed =>
      subst called
      exact flow_called (pending_held sound stepped (by simp)) executed
  | requeued named alive executed =>
      subst named
      exact flow_requeued sound (pending_held sound stepped (by simp)) alive executed
  | returned _ phase split => exact (sound.nothing_returned phase split).elim
  | reaped _ current => exact (sound.nothing_reaped current).elim
  | worked named present workers elsewhere moved =>
      subst named
      exact flow_worker sound nonempty ordinary present workers elsewhere moved
  | client called =>
      subst called
      cases ordinary.2.1
  | pushed called =>
      subst called
      cases ordinary.1.1

end System
