import WorkQueue.Foundation.Trace
import WorkQueue.System.Database
import WorkQueue.System.Payloads

/-! # The order in which queues are served

Whatever enqueuers, requeuers, reapers and clients do, they put payloads at the back of a work
queue, and only fetches take any away, from its front. So every queue is served in order, by all
the workers of all pools together: a payload with some others in front of it is handed out by
exactly the fetch that comes after theirs (`System.queue_in_order`).
-/

namespace Store

/-- Nothing is taken from the work queues, and what is new is behind the rest. -/
def Extends (before after : Store) : Prop :=
  ∀ name, before.list (.jobs name) <:+ after.list (.jobs name)

namespace Extends

variable {first second third : Store}

theorem of_list (same : second.list = first.list) : first.Extends second := by
  intro name
  rw [same]

theorem refl (store : Store) : store.Extends store := of_list rfl

theorem trans (left : first.Extends second) (right : second.Extends third) :
    first.Extends third := fun name => (left name).trans (right name)

theorem lpush (store : Store) (name : String) (raw : RawJSON) :
    store.Extends (store.lpush (.jobs name) raw) := by
  intro other
  by_cases same : other = name
  · subst same
    rw [list_lpush_self]
    exact List.suffix_cons _ _
  · rw [list_lpush_of_ne (by simpa using same)]

/-- Returning a job in progress puts it behind its queue. -/
theorem move (store : Store) (pool : PoolID) (name : String) (rest : List RawJSON)
    (raw : RawJSON) : store.Extends (store.move (.inProgress pool name) (.jobs name) rest raw) := by
  rw [move_eq_lpush (by simp)]
  refine trans (fun other => ?_) (lpush _ _ _)
  dsimp only
  rw [Function.update_of_ne (by simp)]

theorem zremLpush (store : Store) (key : ZSetKey) (known : List String) (now : Int64) :
    store.Extends (store.redisLuaZremLpushCmd key known now).1 := by
  have outcome := store.redisLuaZremLpushCmd_cases key known now
  generalize store.redisLuaZremLpushCmd key known now = result at outcome ⊢
  cases outcome with
  | requeued =>
      exact (of_list rfl).trans (lpush _ _ _)
  | _ => exact of_list rfl

theorem requeueDeadJob (store : Store) (known : List String) (now : Int64) (raw : RawJSON)
    (job : Json) : store.Extends (store.requeueDeadJob known now raw job).1 := by
  have outcome := store.requeueDeadJob_cases known now raw job
  generalize store.requeueDeadJob known now raw job = result at outcome ⊢
  cases outcome with
  | revived =>
      exact (of_list rfl).trans (lpush _ _ _)
  | _ => exact of_list rfl

theorem requeueRun {known : List String} {now : Int64} {raws : List RawJSON}
    (run : RequeueRun known now raws first second) : first.Extends second := by
  induction run with
  | done => exact refl _
  | skipped _ ih => exact ih
  | requeued _ _ ih => exact (requeueDeadJob _ _ _ _ _).trans ih

theorem deleteLoop (key : ZSetKey) (jobID : String) (raws : List RawJSON) (store : Store)
    (deleted : ℕ × Option RawJSON) :
    store.Extends (Store.deleteLoop key jobID raws store deleted).1 :=
  deleteLoop_rec (fun _ _ _ same => same.trans (of_list rfl)) raws deleted (refl store)

end Extends

end Store

/-- An enqueuer extends queues. -/
theorem Enqueuer.extends_execute (ns : String) (redis : Store) (call : Call) :
    redis.Extends (execute ns redis call) := by
  cases call with
  | enqueue => exact .lpush _ _ _
  | enqueueAt | addToKnownJobs => exact .of_list rfl
  | enqueueUnique name id now args keyMap runAt =>
      exact execute_unique_rec rfl rfl (.of_list rfl)
        ((Store.Extends.of_list rfl).trans (.lpush _ _ _)) (fun _ => .of_list rfl) runAt

/-- A client extends queues. -/
theorem Client.extends_execute {redis next : Store} {call : Call}
    (executed : execute redis call = some next) : redis.Extends next := by
  cases execute_cases executed with
  | deleted => exact .deleteLoop _ _ _ _ _
  | freed | cleared => exact .of_list rfl
  | retried _ _ run => exact .requeueRun run

/-- A reaper extends queues. -/
theorem Reaper.Case.extends {curJobTypes : List String} {redis next : Store}
    {before after : State} {event : Event}
    (moved : Case curJobTypes redis before event next after) :
    redis.Extends next := by
  cases moved with
  | requeued => exact (Store.Extends.move _ _ _ _ _).trans (.of_list rfl)
  | cleaned => exact .of_list (Store.list_redisLuaReapStaleLocks _ _ _)
  | _ => exact .of_list rfl

namespace System

variable {deployment : Deployment} {state next source target : State} {event : Event}

/-- What the step takes from a queue: the payload that its fetch finds there, also when the
worker does not get the reply. -/
def fetchedFrom (name : String) (state : State) : Event → List RawJSON
  | .pool id (.worker _ (.fetch order reply)) =>
      if reply = .failed then []
      else
        match (state.redis.redisLuaFetchJob id order).2 with
        | some (raw, queue, _) => if queue = .jobs name then [raw] else []
        | none => []
  | _ => []

/-- What the fetches of an execution take from a queue, in their order. -/
def fetched (deployment : Deployment) (name : String) : State → List Event → List RawJSON :=
  (system deployment).outputs (fetchedFrom name)

/-- The payloads of a queue in the order in which they are served. -/
def waiting (name : String) (state : State) : List RawJSON :=
  (state.redis.list (.jobs name)).reverse

/-- What a step takes from a queue is its front, and what it adds is behind the rest. -/
def Serves (name : String) (state next : State) (taken : List RawJSON) : Prop :=
  ∃ added, taken ++ waiting name next = waiting name state ++ added

theorem serves_of_extends (same : state.redis.Extends next.redis) (name : String) :
    Serves name state next [] := by
  obtain ⟨added, split⟩ := same name
  refine ⟨added.reverse, ?_⟩
  rw [waiting, waiting, ← split, List.reverse_append, List.nil_append]

section Fetching

variable {id : PoolID} {index : ℕ} {order : List String} {reply : Reply} {found name : String}
  {raw : RawJSON} {rest : List RawJSON}

/-- A fetch that finds nothing or is not executed takes nothing. -/
theorem fetchedFrom_of_nothing
    (nothing : reply ≠ .failed → (state.redis.redisLuaFetchJob id order).2 = none) :
    fetchedFrom name state (.pool id (.worker index (.fetch order reply))) = [] := by
  rw [fetchedFrom]
  split
  · rfl
  · next executed => rw [nothing executed]

/-- A fetch serves the queue that it takes a payload from. -/
theorem serves_of_taken (executed : reply ≠ .failed)
    (split : state.redis.list (.jobs found) = rest ++ [raw])
    (taken : (state.redis.redisLuaFetchJob id order).2 =
      some (raw, .jobs found, .inProgress id found))
    (moved : next.redis =
      (state.redis.acquireLock found id).move (.jobs found) (.inProgress id found) rest raw) :
    Serves name state next
      (fetchedFrom name state (.pool id (.worker index (.fetch order reply)))) := by
  rw [fetchedFrom, if_neg executed, taken]
  refine ⟨[], ?_⟩
  rw [waiting, waiting, moved, List.append_nil]
  by_cases same : found = name
  · subst same
    rw [Store.list_move_source (by simp), split]
    simp
  · rw [Store.list_move_of_ne (by simpa using Ne.symm same) (by simp), Store.list_acquireLock]
    simp [same]

end Fetching

/-- A worker that does not fetch leaves the queues alone. -/
theorem serves_worker {id : PoolID} {index : ℕ} {event : Worker.Event}
    {worker worker' : Worker.State} (name : String)
    (held : (PayloadContract.unconditional deployment fun _ _ => True).AtWorker id worker)
    (moved : Worker.Case deployment.ns (deployment.pool id) id state.redis worker event next.redis
      worker') :
    Serves name state next (fetchedFrom name state (.pool id (.worker index event))) := by
  generalize same : next.redis = redis at moved
  cases moved with
  | nothing unfound =>
      rw [fetchedFrom_of_nothing unfound]
      exact serves_of_extends (same ▸ .refl _) name
  | taken _ executed split _ _ taken => exact serves_of_taken executed split taken same
  | @finished job raw finish reply =>
      refine serves_of_extends ?_ name
      obtain ⟨queue, -, held, -⟩ := held
      intro other
      rw [same, Worker.list_removeJobFromInProgress, held, Store.list_lrem_of_ne (by simp)]
  | _ => exact serves_of_extends (same ▸ .of_list rfl) name

/-- A pool serves the queues in order. -/
theorem serves_pool {id : PoolID} {event : Pool.Event} {pool : Pool} (name : String)
    (held : (PayloadContract.unconditional deployment fun _ _ => True).Everywhere state)
    (moved : Pool.Case deployment.ns (deployment.pool id) id state.redis (state.pools id) event
      next.redis pool) : Serves name state next (fetchedFrom name state (.pool id event)) := by
  generalize same : next.redis = redis at moved
  cases moved with
  | worked _ _ present moved =>
      subst same
      exact serves_worker name (held.workers id _ (List.mem_of_getElem? present)) moved
  | reaped _ moved => exact serves_of_extends (same ▸ moved.extends) name
  | requeued => exact serves_of_extends (same ▸ .zremLpush _ _ _ _) name
  | returned =>
      refine serves_of_extends ?_ name
      rw [same]
      exact (Store.Extends.move _ _ _ _ _).trans (.of_list rfl)
  | cleaned =>
      refine serves_of_extends (same ▸ iteInduction (fun _ => ?_) fun _ => .refl _) name
      exact .of_list (Store.list_redisLuaReapStaleLocks _ _ _)
  | capped | added | beat | removed | forgotten =>
      refine serves_of_extends (same ▸ iteInduction (fun _ => ?_) fun _ => .refl _) name
      exact .of_list rfl
  | _ => exact serves_of_extends (same ▸ .of_list rfl) name

/-- Every step serves every queue in order. -/
theorem serves_step (name : String)
    (reachable : (system deployment).Reachable (fun _ _ => True) state)
    (stepped : step deployment state event = some next) :
    Serves name state next (fetchedFrom name state event) := by
  cases event with
  | pool id event =>
      obtain ⟨pool, -, moved⟩ := step_pool stepped
      exact serves_pool name (PayloadContract.reachable _ reachable) moved
  | enqueuer call =>
      cases stepped
      exact serves_of_extends (Enqueuer.extends_execute _ _ _) name
  | client call =>
      obtain ⟨redis, executed, rfl⟩ := Option.map_eq_some_iff.mp stepped
      exact serves_of_extends (Client.extends_execute executed) name
  | pause =>
      cases stepped
      exact serves_of_extends (.of_list rfl) name
  | push =>
      cases stepped
      exact serves_of_extends (.lpush _ _ _) name

/-- Queues are served in order. From any reachable state on, whatever the parties do as long as
the keys are kept apart, the fetches of all workers together take from a queue what waits there
in its order, and what is added comes behind it: a payload with some others in front of it is
taken by the fetch after theirs, or it still waits behind those of them that have not been
taken. -/
theorem queue_in_order {events : List Event} (name : String)
    (reachable : (system deployment).Reachable (PlainKeys deployment) source)
    (executed : (system deployment).run (PlainKeys deployment) source events = some target) :
    (∃ arrivals, fetched deployment name source events ++ waiting name target =
      waiting name source ++ arrivals) ∧
    ∀ ahead raw, (waiting name source)[ahead]? = some raw →
      if ahead < (fetched deployment name source events).length then
        (fetched deployment name source events)[ahead]? = some raw
      else (waiting name target)[ahead - (fetched deployment name source events).length]? =
        some raw := by
  obtain ⟨arrivals, balance⟩ : ∃ arrivals, fetched deployment name source events ++
      waiting name target = waiting name source ++ arrivals :=
    TransitionSystem.outputs_served (fetchedFrom name) (waiting name)
      (fun _ _ _ reached _ stepped =>
        serves_step name (reached.mono fun _ _ _ => trivial) stepped) reachable executed
  refine ⟨⟨arrivals, balance⟩, fun ahead raw there => ?_⟩
  have inside := (List.getElem?_eq_some_iff.mp there).1
  have same : (fetched deployment name source events ++ waiting name target)[ahead]? =
      some raw := by
    rw [balance, List.getElem?_append_left inside, there]
  split
  · next taken => rwa [List.getElem?_append_left taken] at same
  · next later => rwa [List.getElem?_append_right (not_lt.mp later)] at same

/-- What an enqueuer writes for a job of the one name. -/
def sent (id : String) : RawJSON := .json (Enqueuer.plainJob "send" id 0 none).serialize

/-- Two jobs wait, and a worker of one pool fetches. -/
def secondWaits : List Event :=
  [.enqueuer (.enqueue "send" "1" 0 none), .enqueuer (.enqueue "send" "2" 0 none)] ++
    boot ["send"] "A"

/-- The second job waits behind the first, and is the next one after a fetch whose reply is
lost. -/
theorem queue_in_order_second : ∃ source target,
    (system single).Reachable (PlainKeys single) source ∧
      waiting "send" source = [sent "1", sent "2"] ∧
      (system single).run (PlainKeys single) source
        [.pool "A" (.worker 0 (.fetch ["send"] .lost))] = some target ∧
      (waiting "send" target)[0]? = some (sent "2") := by
  have run : ∃ source, (system single).Reachable (PlainKeys single) source ∧
      (waiting "send" source = [sent "1", sent "2"] ∧
        ((system single).run (PlainKeys single) source
          [.pool "A" (.worker 0 (.fetch ["send"] .lost))]).isSome ∧
        (fetched single "send" source
          [.pool "A" (.worker 0 (.fetch ["send"] .lost))]).length = 1) :=
    TransitionSystem.Reachable.exists_of_run secondWaits initial_emptyState (by decide +kernel)
  obtain ⟨source, reached, waits, executed, taken⟩ := run
  obtain ⟨target, ended⟩ := Option.isSome_iff_exists.mp executed
  have served := (queue_in_order "send" reached ended).2 1 (sent "2") (by rw [waits]; rfl)
  rw [taken] at served
  exact ⟨source, target, reached, waits, ended, served⟩

end System
