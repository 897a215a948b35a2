import WorkQueue.Redis.Slots
import WorkQueue.System

/-! # What the parties send

A request is a command, a script or a transaction together with the values that its sender puts
into it. As a program over texts it is what the server executes: the keys are the texts that the
sender has built. On the keys themselves it does what the model of the store says
(`Request.run_script`), and its texts follow its keys (`Request.mirrors_script`).

Every step of the system sends at most one request, and changes the store as that request does
(`System.redis_eq_of_step`).
-/

open Redis

/-- The requests of all parties. -/
inductive Request where
  | fetchJob (pool : PoolID) (names : List String)
  | getUnique (key : String)
  | delUnique (key : String)
  | removeJobFromInProgress (pool : PoolID) (inProgQueue : ListKey) (jobName : String)
      (fate : TerminateOp) (raw : RawJSON)
  | reenqueueJob (pool : PoolID) (names : List String)
  | reapStaleLocks (pool : PoolID) (names : List String)
  | zremLpush (key : ZSetKey) (names : List String) (now : Int64)
  | setConcurrency (name : String) (cap : ℕ)
  | addKnownJobs (names : List String)
  | addPool (pool : PoolID)
  | removePool (pool : PoolID)
  | members
  | setHeartbeat (pool : PoolID) (heartbeat : Heartbeat)
  | delHeartbeat (pool : PoolID)
  | getHeartbeatAt (pool : PoolID)
  | getJobNames (pool : PoolID)
  | push (name : String) (raw : RawJSON)
  | schedule (score : Int64) (raw : RawJSON)
  | enqueueUnique (name key : String) (raw updated : RawJSON)
  | enqueueUniqueIn (key : String) (raw updated : RawJSON) (runAt : Int64)
  | deleteSingle (key : ZSetKey) (score : Int64) (jobID : String)
  | requeueSingleDead (names : List String) (now diedAt : Int64) (jobID : String)
  | requeueAllDead (names : List String) (now : Int64) (limit : ℕ)
  | delDead
  | pause (name : String) (paused : Bool)

/-- What the server answers. -/
inductive Answer (Key : Type) where
  | done
  | fetched (job : Option (Option RawJSON × Key × Key))
  | returned (job : Option (RawJSON × Key × Key))
  | bytes (value : Option RawJSON)
  | pools (members : Finset PoolID)
  | time (value : Option Int64)
  | names (value : Option String)
  | requeued (reply : Store.RequeueReply)
  | deleted (reply : ℕ × Option RawJSON)
  | count (moved : ℕ)
  | free (wasFree : Bool)
  deriving DecidableEq

/-- The answer with the texts of its keys. -/
def Answer.map {Key Name : Type} (text : Key → Name) : Answer Key → Answer Name
  | .done => .done
  | .fetched job => .fetched (job.map fun taken => (taken.1, text taken.2.1, text taken.2.2))
  | .returned job => .returned (job.map fun taken => (taken.1, text taken.2.1, text taken.2.2))
  | .bytes value => .bytes value
  | .pools members => .pools members
  | .time value => .time value
  | .names value => .names value
  | .requeued reply => .requeued reply
  | .deleted reply => .deleted reply
  | .count moved => .count moved
  | .free wasFree => .free wasFree

namespace Request

/-- The keys of a request. -/
def keys : Request → List Key
  | .fetchJob pool names => names.flatMap (Lua.fetchKeys pool)
  | .getUnique key => [.unique key]
  | .delUnique key => [.unique key]
  | .removeJobFromInProgress _ inProgQueue jobName fate _ =>
      [.list inProgQueue, .lock jobName, .lockInfo jobName] ++
        (fate.map fun added => Key.zset added.1).toList
  | .reenqueueJob pool names => names.flatMap (Lua.requeueKeys pool)
  | .reapStaleLocks _ names => names.flatMap Lua.lockKeys
  | .zremLpush key names _ => Lua.zremLpushKeys key names
  | .setConcurrency name _ => [.concurrency name]
  | .addKnownJobs _ => [.knownJobs]
  | .addPool _ => [.workerPools]
  | .removePool _ => [.workerPools]
  | .members => [.workerPools]
  | .setHeartbeat pool _ => [.heartbeat pool]
  | .delHeartbeat pool => [.heartbeat pool]
  | .getHeartbeatAt pool => [.heartbeat pool]
  | .getJobNames pool => [.heartbeat pool]
  | .push name _ => [.list (.jobs name)]
  | .schedule _ _ => [.zset .scheduled]
  | .enqueueUnique name key _ _ => [.list (.jobs name), .unique key]
  | .enqueueUniqueIn key _ _ _ => [.zset .scheduled, .unique key]
  | .deleteSingle key _ _ => [.zset key]
  | .requeueSingleDead names _ _ _ => Lua.deadKeys names
  | .requeueAllDead names _ _ => Lua.deadKeys names
  | .delDead => [.zset .dead]
  | .pause name _ => [.paused name]

/-- What a completing transaction adds. -/
def terminate {Name : Type} (text : Key → Name) : TerminateOp → List (Script Name Unit)
  | none => []
  | some (key, score, raw) => [zadd (text (.zset key)) score.toInt raw]

/-- The request as the server executes it. -/
def script {Name : Type} [DecidableEq Name] (text : Key → Name) (request : Request) :
    Script Name (Answer Name) :=
  match request with
  | .fetchJob pool _ => do
      let job ← Lua.redisLuaFetchJob pool (request.keys.map text)
      return .fetched job
  | .getUnique key => do
      let value ← getBytes (text (.unique key))
      return .bytes value
  | .delUnique key => do
      del (text (.unique key))
      return .done
  | .removeJobFromInProgress pool inProgQueue jobName fate raw => do
      transaction ([lrem (text (.list inProgQueue)) raw, incrby (text (.lock jobName)) (-1),
        hincrby (text (.lockInfo jobName)) pool (-1)] ++ terminate text fate)
      return .done
  | .reenqueueJob pool _ => do
      let job ← Lua.redisLuaReenqueueJob pool (request.keys.map text)
      return .returned job
  | .reapStaleLocks pool _ => do
      Lua.redisLuaReapStaleLocks pool (request.keys.map text)
      return .done
  | .zremLpush _ _ now => do
      let reply ← Lua.redisLuaZremLpushCmd (request.keys.map text)
        (fun name => text (.list (.jobs name))) now
      return .requeued reply
  | .setConcurrency name cap => do
      setNumber (text (.concurrency name)) cap
      return .done
  | .addKnownJobs names => do
      sadd (text .knownJobs) names
      return .done
  | .addPool pool => do
      sadd (text .workerPools) [pool]
      return .done
  | .removePool pool => do
      srem (text .workerPools) pool
      return .done
  | .members => do
      let members ← smembers (text .workerPools)
      return .pools members
  | .setHeartbeat pool heartbeat => do
      hmset (text (.heartbeat pool)) heartbeat
      return .done
  | .delHeartbeat pool => do
      del (text (.heartbeat pool))
      return .done
  | .getHeartbeatAt pool => do
      let value ← hgetHeartbeatAt (text (.heartbeat pool))
      return .time value
  | .getJobNames pool => do
      let value ← hgetJobNames (text (.heartbeat pool))
      return .names value
  | .push name raw => do
      lpush (text (.list (.jobs name))) raw
      return .done
  | .schedule score raw => do
      zadd (text (.zset .scheduled)) score.toInt raw
      return .done
  | .enqueueUnique name key raw updated => do
      let wasFree ← Lua.redisLuaEnqueueUnique (text (.list (.jobs name))) (text (.unique key))
        raw updated
      return .free wasFree
  | .enqueueUniqueIn key raw updated runAt => do
      let wasFree ← Lua.redisLuaEnqueueUniqueIn (text (.zset .scheduled)) (text (.unique key))
        raw updated runAt
      return .free wasFree
  | .deleteSingle key score jobID => do
      let reply ← Lua.redisLuaDeleteSingleCmd (text (.zset key)) score jobID
      return .deleted reply
  | .requeueSingleDead _ now diedAt jobID => do
      let requeued ← Lua.redisLuaRequeueSingleDeadCmd (request.keys.map text)
        (fun name => text (.list (.jobs name))) now diedAt jobID
      return .count requeued
  | .requeueAllDead _ now limit => do
      let requeued ← Lua.redisLuaRequeueAllDeadCmd (request.keys.map text)
        (fun name => text (.list (.jobs name))) now limit
      return .count requeued
  | .delDead => do
      del (text (.zset .dead))
      return .done
  | .pause name true => do
      setNumber (text (.paused name)) 1
      return .done
  | .pause name false => do
      del (text (.paused name))
      return .done

/-- What the request does to the store, and its answer unless it is an error. -/
def perform (store : Store) : Request → Store × Option (Answer Key)
  | .fetchJob pool names =>
      let (next, taken) := store.redisLuaFetchJob pool names
      (next, some (.fetched (taken.map fun job => (some job.1, .list job.2.1, .list job.2.2))))
  | .getUnique key => (store, some (.bytes (store.unique key)))
  | .delUnique key => (store.setUnique key none, some .done)
  | .removeJobFromInProgress pool inProgQueue jobName fate raw =>
      (Worker.removeJobFromInProgress store pool inProgQueue jobName fate raw, some .done)
  | .reenqueueJob pool names =>
      let (next, taken) := store.redisLuaReenqueueJob pool names
      (next, some (.returned (taken.map fun job => (job.1, .list job.2.1, .list job.2.2))))
  | .reapStaleLocks pool names => (store.redisLuaReapStaleLocks pool names, some .done)
  | .zremLpush key names now =>
      let (next, reply) := store.redisLuaZremLpushCmd key names now
      (next, (Lua.reply? reply).map .requeued)
  | .setConcurrency name cap => (Pool.setMaxConcurrency store name cap, some .done)
  | .addKnownJobs names => (Pool.saddKnownJobs store names, some .done)
  | .addPool pool => (Pool.saddPool store pool, some .done)
  | .removePool pool => (Reaper.sremPool store pool, some .done)
  | .members => (store, some (.pools store.workerPools))
  | .setHeartbeat pool heartbeat => (Pool.hmsetHeartbeat store pool heartbeat, some .done)
  | .delHeartbeat pool => (Reaper.delHeartbeat store pool, some .done)
  | .getHeartbeatAt pool =>
      (store, some (.time ((store.heartbeat pool).map Heartbeat.heartbeatAt)))
  | .getJobNames pool => (store, some (.names ((store.heartbeat pool).map Heartbeat.jobNames)))
  | .push name raw => (store.lpush (.jobs name) raw, some .done)
  | .schedule score raw => (store.zadd .scheduled score.toInt raw, some .done)
  | .enqueueUnique name key raw updated =>
      let (next, wasFree) := store.redisLuaEnqueueUnique name key raw updated
      (next, some (.free wasFree))
  | .enqueueUniqueIn key raw updated runAt =>
      let (next, wasFree) := store.redisLuaEnqueueUniqueIn key raw updated runAt
      (next, some (.free wasFree))
  | .deleteSingle key score jobID =>
      let (next, reply) := store.redisLuaDeleteSingleCmd key score jobID
      (next, reply.map .deleted)
  | .requeueSingleDead names now diedAt jobID =>
      let (next, requeued) := store.redisLuaRequeueSingleDeadCmd names now diedAt jobID
      (next, requeued.map .count)
  | .requeueAllDead names now limit =>
      let (next, requeued) := store.redisLuaRequeueAllDeadCmd names now limit
      (next, requeued.map .count)
  | .delDead => ({ store with zset := Function.update store.zset .dead .empty }, some .done)
  | .pause name paused =>
      ({ store with paused := Function.update store.paused name paused }, some .done)

section Running

variable (store : Store)

theorem run_removeJobFromInProgress (pool : PoolID) (inProgQueue : ListKey) (jobName : String)
    (fate : TerminateOp) (raw : RawJSON) :
    (transaction ([lrem (Key.list inProgQueue) raw, incrby (.lock jobName) (-1),
        hincrby (.lockInfo jobName) pool (-1)] ++ terminate id fate)).run store.slots =
      ((Worker.removeJobFromInProgress store pool inProgQueue jobName fate raw).slots,
        some ()) := by
  rw [List.cons_append, List.cons_append, List.cons_append, List.nil_append,
    run_transaction_cons (run_lrem _ _ _), run_transaction_cons (run_incrby _ _ _),
    run_transaction_cons (run_hincrby _ _ _ _)]
  cases fate with
  | none => rfl
  | some added =>
      obtain ⟨key, score, payload⟩ := added
      rw [terminate, id, run_transaction_cons (run_zadd _ _ _ _)]
      rfl

/-- A continued program ends with an answer made of its result, if it has one. -/
theorem run_answer {Result : Type} {program : Script Key Result} {slots after : Key → Slot}
    {result : Option Result} (ran : program.run slots = (after, result))
    (answer : Result → Answer Key) :
    (program >>= fun value => pure (answer value)).run slots = (after, result.map answer) := by
  rw [Program.run_bind, ran]
  cases result <;> rfl

/-- On the keys themselves a request does what the model of the store says. -/
theorem run_script (request : Request) :
    (request.script id).run store.slots =
      ((request.perform store).1.slots, (request.perform store).2) := by
  cases request with
  | fetchJob pool names =>
      rw [script, List.map_id]
      exact run_answer (Lua.run_redisLuaFetchJob store pool names) _
  | getUnique key => exact run_answer (run_getBytes store key) _
  | delUnique key => exact run_answer (run_del_unique store key) _
  | removeJobFromInProgress pool inProgQueue jobName fate raw =>
      exact run_answer (run_removeJobFromInProgress store pool inProgQueue jobName fate raw) _
  | reenqueueJob pool names =>
      rw [script, List.map_id]
      exact run_answer (Lua.run_redisLuaReenqueueJob store pool names) _
  | reapStaleLocks pool names =>
      rw [script, List.map_id]
      exact run_answer (Lua.run_redisLuaReapStaleLocks store pool names) _
  | zremLpush key names now =>
      rw [script, List.map_id]
      exact run_answer (Lua.run_redisLuaZremLpushCmd store key names now) _
  | setConcurrency name cap => exact run_answer (run_set_concurrency store name cap) _
  | addKnownJobs names => exact run_answer (run_sadd_knownJobs store names) _
  | addPool pool => exact run_answer (run_sadd_workerPools store pool) _
  | removePool pool => exact run_answer (run_srem_workerPools store pool) _
  | members => exact run_answer (run_smembers_workerPools store) _
  | setHeartbeat pool heartbeat => exact run_answer (run_hmset store pool heartbeat) _
  | delHeartbeat pool => exact run_answer (run_del_heartbeat store pool) _
  | getHeartbeatAt pool => exact run_answer (run_hgetHeartbeatAt store pool) _
  | getJobNames pool => exact run_answer (run_hgetJobNames store pool) _
  | push name raw => exact run_answer (run_lpush store _ raw) _
  | schedule score raw => exact run_answer (run_zadd store _ _ raw) _
  | enqueueUnique name key raw updated =>
      exact run_answer (Lua.run_redisLuaEnqueueUnique store key raw updated name) _
  | enqueueUniqueIn key raw updated runAt =>
      exact run_answer (Lua.run_redisLuaEnqueueUniqueIn store key raw updated runAt) _
  | deleteSingle key score jobID =>
      exact run_answer (Lua.run_redisLuaDeleteSingleCmd store key score jobID) _
  | requeueSingleDead names now diedAt jobID =>
      rw [script, List.map_id]
      exact run_answer (Lua.run_redisLuaRequeueSingleDeadCmd store names now diedAt jobID) _
  | requeueAllDead names now limit =>
      rw [script, List.map_id]
      exact run_answer (Lua.run_redisLuaRequeueAllDeadCmd store names now limit) _
  | delDead => exact run_answer (run_del_dead store) _
  | pause name paused =>
      cases paused with
      | true => exact run_answer (run_set_paused store name) _
      | false => exact run_answer (run_del_paused store name) _

end Running

section Naming

open Program

/-- Texts that keep the queues apart from one another and from the sorted sets. -/
structure QueuesApart {Name : Type} (text : Key → Name) : Prop where
  jobs : ∀ name other, text (.list (.jobs name)) = text (.list (.jobs other)) → name = other
  zset : ∀ name key, text (.list (.jobs name)) ≠ text (.zset key)

variable {Name : Type} {named : Key → Name → Prop} {text : Key → Name}

/-- A queue is among the texts of some queues and sorted sets if it is among them. -/
theorem QueuesApart.mem_iff (apart : QueuesApart text) {keys : List Key}
    (listed : ∀ key ∈ keys, (∃ name, key = .list (.jobs name)) ∨ ∃ zset, key = .zset zset)
    (name : String) :
    Key.list (.jobs name) ∈ keys.map id ↔ text (.list (.jobs name)) ∈ keys.map text := by
  rw [List.map_id]
  constructor
  · exact fun member => List.mem_map_of_mem member
  · intro member
    obtain ⟨key, found, same⟩ := List.mem_map.mp member
    rcases listed key found with ⟨other, rfl⟩ | ⟨zset, rfl⟩
    · rw [apart.jobs _ _ same.symm]
      exact found
    · exact (apart.zset name zset same.symm).elim

theorem queue_or_zset_zremLpushKeys {key : ZSetKey} {names : List String} {listed : Key}
    (member : listed ∈ Lua.zremLpushKeys key names) :
    (∃ name, listed = .list (.jobs name)) ∨ ∃ zset, listed = .zset zset := by
  simp only [Lua.zremLpushKeys, List.mem_cons, List.mem_map] at member
  rcases member with rfl | rfl | ⟨name, _, rfl⟩
  · exact .inr ⟨_, rfl⟩
  · exact .inr ⟨_, rfl⟩
  · exact .inl ⟨_, rfl⟩

theorem queue_or_zset_deadKeys {names : List String} {listed : Key}
    (member : listed ∈ Lua.deadKeys names) :
    (∃ name, listed = .list (.jobs name)) ∨ ∃ zset, listed = .zset zset := by
  simp only [Lua.deadKeys, List.mem_cons, List.mem_map] at member
  rcases member with rfl | ⟨name, _, rfl⟩
  · exact .inr ⟨_, rfl⟩
  · exact .inl ⟨_, rfl⟩

theorem forall₂_map {keys : List Key} (inside : ∀ key ∈ keys, named key (text key)) :
    List.Forall₂ named (keys.map id) (keys.map text) := by
  rw [List.map_id, List.forall₂_map_right_iff]
  exact List.forall₂_same.mpr inside

theorem named_of_mem {keys : List Key} (inside : ∀ key ∈ keys, named key (text key))
    (name : String) (member : Key.list (.jobs name) ∈ keys.map id) :
    named (.list (.jobs name)) (text (.list (.jobs name))) := by
  rw [List.map_id] at member
  exact inside _ member

/-- The answer in texts. -/
def Answered (text : Key → Name) (answer : Answer Key) (answer' : Answer Name) : Prop :=
  answer' = answer.map text

theorem map_of_answered {answer : Option (Answer Key)} {answer' : Option (Answer Name)}
    (same : Option.Rel (Answered text) answer answer') :
    answer' = answer.map (Answer.map text) := by
  cases same with
  | none => rfl
  | some same => exact congrArg some same

theorem mirrors_answer {Result : Type} {program : Script Key Result}
    {program' : Script Name Result} (mirrors : Mirrors named Eq program program')
    {answer : Result → Answer Key} {answer' : Result → Answer Name}
    (same : ∀ result, answer' result = (answer result).map text) :
    Mirrors named (Answered text) (program >>= fun value => pure (answer value))
      (program' >>= fun value => pure (answer' value)) := by
  apply mirrors.bind
  rintro result _ rfl
  exact .pure (same result)

/-- What a script has moved, in texts. -/
theorem map_of_moved (spelled : ∀ key name, named key name → name = text key) {Payload : Type}
    {moved : Option (Payload × Key × Key)} {moved' : Option (Payload × Name × Name)}
    (same : Option.Rel (Lua.Moved named) moved moved') :
    moved' = moved.map fun taken => (taken.1, text taken.2.1, text taken.2.2) := by
  cases same with
  | none => rfl
  | some taken =>
      obtain ⟨payload, source, target⟩ := taken
      exact congrArg some (Prod.ext payload (Prod.ext (spelled _ _ source) (spelled _ _ target)))

theorem mirrors_terminate {fate : TerminateOp}
    (inside : ∀ key ∈ (fate.map fun added => Key.zset added.1).toList, named key (text key)) :
    List.Forall₂ (Mirrors named Eq) (terminate id fate) (terminate text fate) := by
  cases fate with
  | none => exact .nil
  | some added =>
      obtain ⟨key, score, raw⟩ := added
      exact .cons (mirrors_zadd (inside _ (List.mem_singleton_self _)) _ _) .nil

/-- The texts of a request follow its keys. -/
theorem mirrors_script [DecidableEq Name] (apart : QueuesApart text)
    (spelled : ∀ key name, named key name → name = text key) {request : Request}
    (inside : ∀ key ∈ request.keys, named key (text key)) :
    Mirrors named (Answered text) (request.script id) (request.script text) := by
  cases request with
  | fetchJob pool names =>
      apply (Lua.mirrors_redisLuaFetchJob pool (forall₂_map inside)).bind
      intro job job' same
      exact .pure (congrArg Answer.fetched (map_of_moved spelled same))
  | reenqueueJob pool names =>
      apply (Lua.mirrors_redisLuaReenqueueJob pool (forall₂_map inside)).bind
      intro job job' same
      exact .pure (congrArg Answer.returned (map_of_moved spelled same))
  | reapStaleLocks pool names =>
      exact mirrors_answer (Lua.mirrors_redisLuaReapStaleLocks pool (forall₂_map inside))
        fun _ => rfl
  | zremLpush key names now =>
      exact mirrors_answer (Lua.mirrors_redisLuaZremLpushCmd
        (apart.mem_iff fun _ => queue_or_zset_zremLpushKeys) (named_of_mem inside) now
        (forall₂_map inside)) fun _ => rfl
  | requeueSingleDead names now diedAt jobID =>
      exact mirrors_answer (Lua.mirrors_redisLuaRequeueSingleDeadCmd
        (apart.mem_iff fun _ => queue_or_zset_deadKeys) (named_of_mem inside) now jobID
        (forall₂_map inside) diedAt) fun _ => rfl
  | requeueAllDead names now limit =>
      exact mirrors_answer (Lua.mirrors_redisLuaRequeueAllDeadCmd
        (apart.mem_iff fun _ => queue_or_zset_deadKeys) (named_of_mem inside) now
        (forall₂_map inside) limit) fun _ => rfl
  | removeJobFromInProgress pool inProgQueue jobName fate raw =>
      have list := inside (.list inProgQueue) (by simp [keys])
      have lock := inside (.lock jobName) (by simp [keys])
      have info := inside (.lockInfo jobName) (by simp [keys])
      have added := @mirrors_terminate _ named text fate fun key member =>
        inside key (List.mem_append_right _ member)
      refine mirrors_answer (mirrors_transaction ?_) fun _ => rfl
      exact .cons (mirrors_lrem list raw) (.cons (mirrors_incrby lock (-1))
        (.cons (mirrors_hincrby info pool (-1)) added))
  | enqueueUnique name key raw updated =>
      have queue := inside (.list (.jobs name)) (by simp [keys])
      have unique := inside (.unique key) (by simp [keys])
      exact mirrors_answer (Lua.mirrors_redisLuaEnqueueUnique queue unique raw updated)
        fun _ => rfl
  | enqueueUniqueIn key raw updated runAt =>
      have scheduled := inside (.zset .scheduled) (by simp [keys])
      have unique := inside (.unique key) (by simp [keys])
      exact mirrors_answer (Lua.mirrors_redisLuaEnqueueUniqueIn scheduled unique raw updated runAt)
        fun _ => rfl
  | pause name paused =>
      have flag := inside (.paused name) (List.mem_singleton_self _)
      cases paused with
      | true => exact mirrors_answer (mirrors_setNumber flag 1) fun _ => rfl
      | false => exact mirrors_answer (mirrors_del flag) fun _ => rfl
  | getUnique key =>
      exact mirrors_answer (mirrors_getBytes (inside _ (List.mem_singleton_self _))) fun _ => rfl
  | delUnique key | delHeartbeat pool | delDead =>
      exact mirrors_answer (mirrors_del (inside _ (List.mem_singleton_self _))) fun _ => rfl
  | setConcurrency name cap =>
      exact mirrors_answer (mirrors_setNumber (inside _ (List.mem_singleton_self _)) cap)
        fun _ => rfl
  | addKnownJobs names =>
      exact mirrors_answer (mirrors_sadd (inside _ (List.mem_singleton_self _)) names)
        fun _ => rfl
  | addPool pool =>
      exact mirrors_answer (mirrors_sadd (inside _ (List.mem_singleton_self _)) [pool])
        fun _ => rfl
  | removePool pool =>
      exact mirrors_answer (mirrors_srem (inside _ (List.mem_singleton_self _)) pool) fun _ => rfl
  | members =>
      exact mirrors_answer (mirrors_smembers (inside _ (List.mem_singleton_self _))) fun _ => rfl
  | setHeartbeat pool heartbeat =>
      exact mirrors_answer (mirrors_hmset (inside _ (List.mem_singleton_self _)) heartbeat)
        fun _ => rfl
  | getHeartbeatAt pool =>
      exact mirrors_answer (mirrors_hgetHeartbeatAt (inside _ (List.mem_singleton_self _)))
        fun _ => rfl
  | getJobNames pool =>
      exact mirrors_answer (mirrors_hgetJobNames (inside _ (List.mem_singleton_self _)))
        fun _ => rfl
  | push name raw =>
      exact mirrors_answer (mirrors_lpush (inside _ (List.mem_singleton_self _)) raw) fun _ => rfl
  | schedule score raw =>
      exact mirrors_answer (mirrors_zadd (inside _ (List.mem_singleton_self _)) _ raw)
        fun _ => rfl
  | deleteSingle key score jobID =>
      exact mirrors_answer (Lua.mirrors_redisLuaDeleteSingleCmd
        (inside _ (List.mem_singleton_self _)) score jobID) fun _ => rfl

end Naming

/-- The store after a request, if one is executed. -/
def after (store : Store) (request : Option Request) : Store :=
  request.elim store fun request => (request.perform store).1

end Request

/-- The request that is executed unless it fails on its way. -/
def Reply.sent (reply : Reply) (request : Request) : Option Request :=
  if reply = .failed then none else some request

/-- The request of a worker's step. -/
def Worker.request (ns : String) (config : PoolConfig) (poolID : PoolID) :
    Worker.State → Worker.Event → Option Request
  | .idle, .fetch order reply => reply.sent (.fetchJob poolID order)
  | .fetched job, .getUnique reply => reply.sent (.getUnique (uniqueKey ns job.toJob))
  | .gotUnique job _, .delUnique reply => reply.sent (.delUnique (uniqueKey ns job.toJob))
  | .running job raw, .finish finish reply =>
      let (after, fate) := processJob config job.toJob finish
      reply.sent (.removeJobFromInProgress poolID job.inProgQueue after.name fate raw)
  | _, _ => none

/-- The request of a reaper's step. -/
def Reaper.request : Reaper.State → Reaper.Event → Option Request
  | .idle, .members _ reply => reply.sent .members
  | .scanning (pool :: _) _, .heartbeatAt _ reply => reply.sent (.getHeartbeatAt pool)
  | .reading pool _ _, .jobNames reply => reply.sent (.getJobNames pool)
  | .requeueing pool jobTypes _, .requeue reply => reply.sent (.reenqueueJob pool jobTypes)
  | .deleting pool _ _, .delete reply => reply.sent (.delHeartbeat pool)
  | .removing pool _ _, .remove reply => reply.sent (.removePool pool)
  | .cleaning pool lockJobTypes _, .clean reply => reply.sent (.reapStaleLocks pool lockJobTypes)
  | _, _ => none

/-- The request of a pool's step. -/
def Pool.request (ns : String) (config : PoolConfig) (poolID : PoolID) (pool : Pool) :
    Pool.Event → Option Request
  | .writeConcurrency name executed =>
      (config.jobType? name).bind fun jobType =>
        if executed then some (.setConcurrency name jobType.maxConcurrency) else none
  | .writeKnownJobs => some (.addKnownJobs config.names)
  | .worker index event =>
      pool.workers[index]?.bind fun worker => Worker.request ns config poolID worker event
  | .beatAdd _ executed => if executed then some (.addPool poolID) else none
  | .beatHash now executed =>
      match pool.heart with
      | .added startedAt =>
          if executed then some (.setHeartbeat poolID (config.heartbeat startedAt now)) else none
      | _ => none
  | .requeue key now => some (.zremLpush key config.names now)
  | .reaper event => Reaper.request pool.reaper event
  | .requeueInProgressJobs order reply => reply.sent (.reenqueueJob poolID order)
  | .cleanStaleLockInfo executed =>
      if executed then some (.reapStaleLocks poolID config.names) else none
  | .removeFromPools executed => if executed then some (.removePool poolID) else none
  | .removeHeartbeat executed => if executed then some (.delHeartbeat poolID) else none
  | .start | .launch | .stop | .workersStopped | .advance | .crash => none

/-- The request of an enqueuer's command. -/
def Enqueuer.request (ns : String) : Enqueuer.Call → Request
  | .enqueue jobName id now args => .push jobName (.json (plainJob jobName id now args).serialize)
  | .enqueueAt jobName id now args epochSeconds =>
      .schedule epochSeconds (.json (plainJob jobName id now args).serialize)
  | .enqueueUnique jobName id now args keyMap runAt =>
      let job := uniqueJob ns jobName id now args keyMap
      match runAt with
      | none =>
          .enqueueUnique jobName job.uniqueKey (.json job.serialize) (updatedValue keyMap job)
      | some epochSeconds =>
          .enqueueUniqueIn job.uniqueKey (.json job.serialize) (updatedValue keyMap job)
            epochSeconds
  | .addToKnownJobs jobName => .addKnownJobs [jobName]

/-- The request of a client's command. -/
def Client.request : Client.Call → Request
  | .deleteZsetJob key zscore jobID => .deleteSingle key zscore jobID
  | .deleteUniqueKey uniqueKey => .delUnique uniqueKey
  | .retryDeadJob jobNames now diedAt jobID => .requeueSingleDead jobNames now diedAt jobID
  | .retryAllDeadJobs jobNames now => .requeueAllDead jobNames now 1000
  | .deleteAllDeadJobs => .delDead

namespace System

/-- The request of a step. -/
def request (deployment : Deployment) (state : State) : Event → Option Request
  | .pool id event =>
      Pool.request deployment.ns (deployment.pool id) id (state.pools id) event
  | .enqueuer call => some (Enqueuer.request deployment.ns call)
  | .client call => some (Client.request call)
  | .pause jobName paused => some (.pause jobName paused)
  | .push jobName raw => some (.push jobName raw)

section Steps

variable {ns : String} {config : PoolConfig} {poolID : PoolID} {redis next : Store}

theorem redis_eq_of_worker {worker worker' : Worker.State} {event : Worker.Event}
    (stepped : Worker.step ns config poolID redis worker event = some (next, worker')) :
    next = Request.after redis (Worker.request ns config poolID worker event) := by
  unfold Worker.step at stepped
  split at stepped
  · next order reply =>
      obtain ⟨-, stepped⟩ := Option.ite_none_right_eq_some.mp stepped
      cases reply <;> cases stepped <;> rfl
  · next job reply =>
      cases reply with
      | ok =>
          simp only [Reply.deliver] at stepped
          split at stepped <;> cases stepped <;> rfl
      | lost | failed =>
          cases stepped
          rfl
  · next job raw reply => cases reply <;> cases stepped <;> rfl
  · next job raw finish reply => cases reply <;> cases stepped <;> rfl
  · cases stepped
    rfl
  · cases stepped

theorem redis_eq_of_reaper {curJobTypes : List String} {reaper reaper' : Reaper.State}
    {event : Reaper.Event}
    (stepped : Reaper.step curJobTypes redis reaper event = some (next, reaper')) :
    next = Request.after redis (Reaper.request reaper event) := by
  unfold Reaper.step at stepped
  split at stepped
  · next order reply =>
      obtain ⟨-, stepped⟩ := Option.ite_none_right_eq_some.mp stepped
      cases reply <;> cases stepped <;> rfl
  · next pool todo found now reply =>
      have same : next = redis := by
        split at stepped
        · cases stepped
          rfl
        · cases stepped
          rfl
        · split at stepped <;> cases stepped <;> rfl
      rw [same]
      cases reply <;> rfl
  · next pool todo found reply =>
      have same : next = redis := by
        split at stepped <;> cases stepped <;> rfl
      rw [same]
      cases reply <;> rfl
  · next found order =>
      obtain ⟨-, stepped⟩ := Option.ite_none_right_eq_some.mp stepped
      cases stepped
      rfl
  · next pool jobTypes todo reply =>
      cases reply with
      | ok =>
          simp only [Reply.deliver] at stepped
          split at stepped <;> cases stepped <;> rfl
      | lost | failed =>
          cases stepped
          rfl
  · next pool jobTypes todo reply => cases reply <;> cases stepped <;> rfl
  · next pool lockJobTypes todo reply => cases reply <;> cases stepped <;> rfl
  · next pool lockJobTypes todo reply => cases reply <;> cases stepped <;> rfl
  · cases stepped

theorem redis_eq_of_pool {pool pool' : Pool} {event : Pool.Event}
    (stepped : Pool.step ns config poolID redis pool event = some (next, pool')) :
    next = Request.after redis (Pool.request ns config poolID pool event) := by
  cases event with
  | writeConcurrency name executed =>
      simp only [Pool.step] at stepped
      split at stepped
      · split at stepped
        · next jobType registered =>
            split at stepped
            · cases stepped
              rw [Pool.request, registered]
              cases executed <;> rfl
            · cases stepped
        · cases stepped
      · cases stepped
  | worker index event =>
      simp only [Pool.step] at stepped
      split at stepped
      · split at stepped
        · next worker present =>
            obtain ⟨⟨after, worker'⟩, moved, same⟩ := Option.map_eq_some_iff.mp stepped
            cases same
            rw [Pool.request, present]
            exact redis_eq_of_worker moved
        · cases stepped
      · cases stepped
  | beatAdd now executed =>
      obtain ⟨-, stepped⟩ := Option.ite_none_right_eq_some.mp stepped
      split at stepped <;> cases stepped <;> cases executed <;> rfl
  | beatHash now executed =>
      simp only [Pool.step] at stepped
      split at stepped
      · split at stepped
        · next startedAt added =>
            cases stepped
            rw [Pool.request, added]
            cases executed <;> rfl
        · cases stepped
      · cases stepped
  | reaper event =>
      obtain ⟨-, stepped⟩ := Option.ite_none_right_eq_some.mp stepped
      obtain ⟨⟨after, reaper⟩, moved, same⟩ := Option.map_eq_some_iff.mp stepped
      cases same
      exact redis_eq_of_reaper moved
  | requeueInProgressJobs order reply =>
      obtain ⟨-, stepped⟩ := Option.ite_none_right_eq_some.mp stepped
      cases reply with
      | ok =>
          dsimp only at stepped
          split at stepped <;> cases stepped <;> rfl
      | lost | failed =>
          cases stepped
          rfl
  | cleanStaleLockInfo executed | removeFromPools executed | removeHeartbeat executed =>
      obtain ⟨-, stepped⟩ := Option.ite_none_right_eq_some.mp stepped
      cases stepped
      cases executed <;> rfl
  | advance =>
      obtain ⟨-, stepped⟩ := Option.ite_none_right_eq_some.mp stepped
      obtain ⟨phase, _, same⟩ := Option.map_eq_some_iff.mp stepped
      cases same
      rfl
  | crash =>
      cases stepped
      rfl
  | start | launch | writeKnownJobs | requeue | stop | workersStopped =>
      obtain ⟨-, stepped⟩ := Option.ite_none_right_eq_some.mp stepped
      cases stepped
      rfl

/-- A step of the system changes the store as its request does. -/
theorem redis_eq_of_step {deployment : Deployment} {state target : State} {event : Event}
    (stepped : step deployment state event = some target) :
    target.redis = Request.after state.redis (request deployment state event) := by
  cases event with
  | pool id event =>
      obtain ⟨⟨redis, pool⟩, moved, rfl⟩ := Option.map_eq_some_iff.mp stepped
      exact redis_eq_of_pool moved
  | enqueuer call =>
      cases stepped
      rcases call with _ | _ | ⟨_, _, _, _, _, _ | _⟩ | _ <;> rfl
  | client call =>
      obtain ⟨redis, executed, rfl⟩ := Option.map_eq_some_iff.mp stepped
      cases call with
      | retryDeadJob | retryAllDeadJobs =>
          obtain ⟨-, executed⟩ := Option.ite_none_right_eq_some.mp executed
          cases executed
          rfl
      | deleteZsetJob | deleteUniqueKey | deleteAllDeadJobs =>
          cases executed
          rfl
  | pause jobName paused | push jobName raw =>
      cases stepped
      rfl

end Steps

end System
