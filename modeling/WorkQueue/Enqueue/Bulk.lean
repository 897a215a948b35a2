import WorkQueue.Foundation.Pipeline
import WorkQueue.System

/-! # Bulk enqueueing

A bulk enqueue sends one command for each of its jobs through one pipeline: a push, an
insertion into the scheduled jobs, or the hash of one of the two unique scripts. A server
that has not loaded a script refuses its hash, and the scripts that were refused are sent
again with their source after all other replies have been received. The names are added to
the known jobs and the replicas waited for in the same pipeline.

`Enqueuer.bulkEnqueue` is the pipeline over any server, and `Enqueuer.enqueueEach` makes the
corresponding single calls one after the other.
-/

/-- The two scripts of an enqueuer. -/
inductive UniqueScript where
  | enqueueUnique
  | enqueueUniqueIn
  deriving DecidableEq

/-- A call of a script with its keys and arguments. -/
inductive ScriptCall where
  | enqueueUnique (queue uniqueKey : String) (raw updated : RawJSON)
  | enqueueUniqueIn (uniqueKey : String) (raw updated : RawJSON) (runAt : Int64)
  deriving DecidableEq

namespace ScriptCall

/-- The script that is called. -/
def script : ScriptCall → UniqueScript
  | .enqueueUnique .. => .enqueueUnique
  | .enqueueUniqueIn .. => .enqueueUniqueIn

/-- Run the script on a store. The answer tells whether the status is `ok`. -/
def execute (store : Store) : ScriptCall → Store × Bool
  | .enqueueUnique queue uniqueKey raw updated =>
      store.redisLuaEnqueueUnique queue uniqueKey raw updated
  | .enqueueUniqueIn uniqueKey raw updated runAt =>
      store.redisLuaEnqueueUniqueIn uniqueKey raw updated runAt

end ScriptCall

/-- The commands of an enqueuer. -/
inductive EnqueueCommand where
  | evalsha (call : ScriptCall)
  | eval (call : ScriptCall)
  | zadd (score : Int64) (raw : RawJSON)
  | lpush (queue : String) (raw : RawJSON)
  | sadd (jobNames : List String)
  | wait
  deriving DecidableEq

/-- The replies to an enqueuer. -/
inductive EnqueueAnswer where
  | status (ok : Bool)
  | integer (value : Int)
  | noScript
  | error
  deriving DecidableEq

/-- A server: its store, the scripts it has loaded, and how many replicas the next waits
will report. -/
structure RedisServer where
  store : Store
  loaded : UniqueScript → Bool
  replicas : List Int

/-- Execute a command without faults. -/
def RedisServer.serve (redis : RedisServer) : EnqueueCommand → RedisServer × EnqueueAnswer
  | .evalsha call =>
      if redis.loaded call.script then
        ({ redis with store := (call.execute redis.store).1 },
          .status (call.execute redis.store).2)
      else (redis, .noScript)
  | .eval call =>
      ({ redis with
          store := (call.execute redis.store).1
          loaded := Function.update redis.loaded call.script true },
        .status (call.execute redis.store).2)
  | .zadd score raw =>
      ({ redis with store := redis.store.zadd .scheduled score.toInt raw },
        .integer (if raw ∈ (redis.store.zset .scheduled).members then 0 else 1))
  | .lpush queue raw =>
      ({ redis with store := redis.store.lpush (.jobs queue) raw },
        .integer ((redis.store.list (.jobs queue)).length + 1))
  | .sadd jobNames =>
      ({ redis with store := Pool.saddKnownJobs redis.store jobNames },
        .integer (jobNames.toFinset \ redis.store.knownJobs).card)
  | .wait => ({ redis with replicas := redis.replicas.tail }, .integer (redis.replicas.headD 0))

/-- The parameters of one job of a bulk enqueue. -/
structure BulkEnqueueParam where
  name : String
  args : Args := none
  runAtEpoch : Int64 := 0
  unique : Bool := false
  uniqueKeyMap : Args := none
  deriving DecidableEq

/-- The result of a bulk enqueue for one job. -/
structure BulkEnqueueResult where
  id : String
  enqueuedAt : Int64
  enqueueSkipped : Bool := false
  uniqueKey : String
  deriving DecidableEq

/-- What an enqueuer is created with, and the times until which it takes job names for
known. -/
structure Enqueuer where
  ns : String
  minWaitReplicas : Int := 0
  knownJobs : String → Option Int64 := fun _ => none

namespace BulkEnqueueParam

/-- The key of a job, empty if it is not unique. -/
def buildUniqueKey (ns : String) (param : BulkEnqueueParam) : String :=
  if param.unique then
    redisKeyUniqueJob ns param.name (param.uniqueKeyMap.orElse fun _ => param.args)
  else ""

/-- The job that is written. -/
def buildJob (ns : String) (epochSeconds : Int64) (param : BulkEnqueueParam) (id : String) : Job :=
  { name := param.name, id := id, enqueuedAt := epochSeconds, args := param.args,
    unique := param.unique, uniqueKey := param.buildUniqueKey ns }

/-- The result that is returned if the job is not skipped. -/
def buildResult (ns : String) (epochSeconds : Int64) (param : BulkEnqueueParam) (id : String) :
    BulkEnqueueResult :=
  { id := id, enqueuedAt := epochSeconds, uniqueKey := param.buildUniqueKey ns }

/-- The script for a unique job with its arguments. Without a key map the arguments of the
job cannot be updated. -/
def bulkUniqueHelper (param : BulkEnqueueParam) (job : Job) : ScriptCall :=
  let updatedArg := match param.uniqueKeyMap with
    | none => .placeholder
    | some _ => .json job.serialize
  if param.runAtEpoch ≠ 0 then
    .enqueueUniqueIn job.uniqueKey (.json job.serialize) updatedArg param.runAtEpoch
  else .enqueueUnique job.name job.uniqueKey (.json job.serialize) updatedArg

end BulkEnqueueParam

/-- A parameter with the identifier that is generated for its job. -/
abbrev BulkItem := BulkEnqueueParam × String

/-- Why a bulk enqueue fails. -/
inductive BulkError where
  | redis
  | replicationFailed
  deriving DecidableEq

namespace Enqueuer

/-- The job of an item. -/
def itemJob (ns : String) (epochSeconds : Int64) (item : BulkItem) : Job :=
  item.1.buildJob ns epochSeconds item.2

/-- The script of a unique item. -/
def itemScript (ns : String) (epochSeconds : Int64) (item : BulkItem) : ScriptCall :=
  item.1.bulkUniqueHelper (itemJob ns epochSeconds item)

/-- The command that is sent first for an item. -/
def itemCommand (ns : String) (epochSeconds : Int64) (item : BulkItem) : EnqueueCommand :=
  if item.1.unique then .evalsha (itemScript ns epochSeconds item)
  else if item.1.runAtEpoch ≠ 0 then
    .zadd item.1.runAtEpoch (.json (itemJob ns epochSeconds item).serialize)
  else .lpush item.1.name (.json (itemJob ns epochSeconds item).serialize)

section Pipeline

variable {Server : Type} (serve : Server → EnqueueCommand → Server × EnqueueAnswer)

/-- A connection of an enqueuer. -/
abbrev Conn (Server : Type) := Connection Server EnqueueCommand EnqueueAnswer

/-- The names that have to be added to the known jobs. -/
def pendingJobNames (enqueuer : Enqueuer) (now : Int64) (items : List BulkItem) : List String :=
  ((items.map fun item => item.1.name).filter fun name =>
    match enqueuer.knownJobs name with
    | none => true
    | some time => time < now).dedup

/-- Send the names that are not known. -/
def sendBulkKnownJobs (conn : Conn Server) (pending : List String) : Conn Server :=
  if pending = [] then conn else conn.send (.sadd pending)

/-- Receive the reply for the names that were sent and remember them. -/
def receiveKnownJobs (enqueuer : Enqueuer) (conn : Conn Server) (now : Int64)
    (pending : List String) : Conn Server × Except BulkError Enqueuer :=
  if pending = [] then (conn, .ok enqueuer)
  else
    match conn.receive with
    | some (.status _, next) | some (.integer _, next) =>
        (next, .ok { enqueuer with
          knownJobs := fun name =>
            if name ∈ pending then some (now + 300) else enqueuer.knownJobs name })
    | some (.noScript, next) | some (.error, next) => (next, .error .redis)
    | none => (conn, .error .redis)

/-- Send a wait if replicas are asked for. -/
def sendWait (enqueuer : Enqueuer) (conn : Conn Server) : Conn Server :=
  if 0 < enqueuer.minWaitReplicas then conn.send .wait else conn

/-- Receive the number of replicas if they were asked for. -/
def receiveWait (enqueuer : Enqueuer) (conn : Conn Server) : Conn Server × Except BulkError Unit :=
  if 0 < enqueuer.minWaitReplicas then
    match conn.receive with
    | some (.integer replicas, next) =>
        (next, if replicas < enqueuer.minWaitReplicas then .error .replicationFailed else .ok ())
    | some (_, next) => (next, .error .redis)
    | none => (conn, .error .redis)
  else (conn, .ok ())

/-- What the reply to the first command of an item says: whether the job is skipped, nothing
yet if the script has to be sent again, or an error. -/
def itemStatus (unique : Bool) : EnqueueAnswer → Except BulkError (Option Bool)
  | .status ok => .ok (some (unique && !ok))
  | .integer _ => if unique then .error .redis else .ok (some false)
  | .noScript => if unique then .ok none else .error .redis
  | .error => .error .redis

/-- Receive the replies to the first commands. -/
def receiveStatuses (conn : Conn Server) :
    List BulkItem → Conn Server × Except BulkError (List (Option Bool))
  | [] => (conn, .ok [])
  | item :: items =>
      match conn.receive with
      | none => (conn, .error .redis)
      | some (answer, next) =>
          match itemStatus item.1.unique answer with
          | .error error => (next, .error error)
          | .ok status =>
              match receiveStatuses next items with
              | (final, .ok statuses) => (final, .ok (status :: statuses))
              | (final, .error error) => (final, .error error)

/-- Receive the replies to the scripts that were sent again. -/
def receiveReplayed (conn : Conn Server) :
    List BulkItem → Conn Server × Except BulkError (List Bool)
  | [] => (conn, .ok [])
  | _ :: items =>
      match conn.receive with
      | some (.status ok, next) =>
          match receiveReplayed next items with
          | (final, .ok skipped) => (final, .ok ((!ok) :: skipped))
          | (final, .error error) => (final, .error error)
      | some (_, next) => (next, .error .redis)
      | none => (conn, .error .redis)

/-- The items whose script has to be sent again. -/
def failedItems (items : List BulkItem) (statuses : List (Option Bool)) : List BulkItem :=
  ((items.zip statuses).filter fun pair => pair.2 = none).map Prod.fst

/-- Fill in the answers of the second pass. -/
def fillStatuses : List (Option Bool) → List Bool → List Bool
  | [], _ => []
  | some skipped :: statuses, replayed => skipped :: fillStatuses statuses replayed
  | none :: statuses, skipped :: replayed => skipped :: fillStatuses statuses replayed
  | none :: statuses, [] => false :: fillStatuses statuses []

/-- The results of the items. -/
def bulkResults (ns : String) (epochSeconds : Int64) (items : List BulkItem)
    (skipped : List Bool) : List BulkEnqueueResult :=
  List.zipWith (fun item skip =>
    { item.1.buildResult ns epochSeconds item.2 with enqueueSkipped := skip }) items skipped

/-- Send the scripts that were refused again, with their source. -/
def bulkReplay (enqueuer : Enqueuer) (conn : Conn Server) (epochSeconds : Int64)
    (failed : List BulkItem) : Conn Server × Except BulkError (List Bool) :=
  let sent := conn.sendAll (failed.map fun item => .eval (itemScript enqueuer.ns epochSeconds item))
  match receiveReplayed ((enqueuer.sendWait sent).flush serve) failed with
  | (next, .error error) => (next, .error error)
  | (next, .ok replayed) =>
      match enqueuer.receiveWait next with
      | (final, .error error) => (final, .error error)
      | (final, .ok ()) => (final, .ok replayed)

/-- Enqueue many jobs through one pipeline. -/
def bulkEnqueue (enqueuer : Enqueuer) (conn : Conn Server) (epochSeconds now : Int64)
    (items : List BulkItem) :
    Conn Server × Enqueuer × Except BulkError (List BulkEnqueueResult) :=
  let pending := enqueuer.pendingJobNames now items
  let sent := sendBulkKnownJobs (conn.sendAll (items.map (itemCommand enqueuer.ns epochSeconds)))
    pending
  match receiveStatuses ((enqueuer.sendWait sent).flush serve) items with
  | (next, .error error) => (next, enqueuer, .error error)
  | (next, .ok statuses) =>
      match enqueuer.receiveKnownJobs next now pending with
      | (next, .error error) => (next, enqueuer, .error error)
      | (next, .ok enqueuer) =>
          match enqueuer.receiveWait next with
          | (next, .error error) => (next, enqueuer, .error error)
          | (next, .ok ()) =>
              if failedItems items statuses = [] then
                (next, enqueuer,
                  .ok (bulkResults enqueuer.ns epochSeconds items (fillStatuses statuses [])))
              else
                match enqueuer.bulkReplay serve next epochSeconds (failedItems items statuses) with
                | (final, .error error) => (final, enqueuer, .error error)
                | (final, .ok replayed) =>
                    (final, enqueuer,
                      .ok (bulkResults enqueuer.ns epochSeconds items
                        (fillStatuses statuses replayed)))

end Pipeline

section SingleCalls

/-- Add a name to the known jobs unless it has been added a short while ago. -/
def addToKnownJobs (enqueuer : Enqueuer) (redis : Store) (now : Int64) (jobName : String) :
    Store × Enqueuer :=
  let needSadd := match enqueuer.knownJobs jobName with
    | none => true
    | some time => !(now < time)
  if needSadd then
    (Pool.saddKnownJobs redis [jobName],
      { enqueuer with knownJobs := Function.update enqueuer.knownJobs jobName (some (now + 300)) })
  else (redis, enqueuer)

/-- The single call that corresponds to an item. The answer tells whether it enqueues no
job. -/
def enqueueOne (enqueuer : Enqueuer) (redis : Store) (epochSeconds now : Int64)
    (item : BulkItem) : Store × Enqueuer × Bool :=
  let param := item.1
  if param.unique then
    let (next, enqueuer) := enqueuer.addToKnownJobs redis now param.name
    let job := uniqueJob enqueuer.ns param.name item.2 epochSeconds param.args param.uniqueKeyMap
    let (final, ok) :=
      if param.runAtEpoch ≠ 0 then
        next.redisLuaEnqueueUniqueIn job.uniqueKey (.json job.serialize)
          (updatedValue param.uniqueKeyMap job) param.runAtEpoch
      else
        next.redisLuaEnqueueUnique param.name job.uniqueKey (.json job.serialize)
          (updatedValue param.uniqueKeyMap job)
    (final, enqueuer, !ok)
  else
    let job := plainJob param.name item.2 epochSeconds param.args
    let next :=
      if param.runAtEpoch ≠ 0 then
        redis.zadd .scheduled param.runAtEpoch.toInt (.json job.serialize)
      else redis.lpush (.jobs param.name) (.json job.serialize)
    let (final, enqueuer) := enqueuer.addToKnownJobs next now param.name
    (final, enqueuer, false)

/-- The single calls for a list of items, one after the other. -/
def enqueueEach (enqueuer : Enqueuer) (redis : Store) (epochSeconds now : Int64) :
    List BulkItem → Store × Enqueuer × List Bool
  | [] => (redis, enqueuer, [])
  | item :: items =>
      let (next, enqueuer, skipped) := enqueuer.enqueueOne redis epochSeconds now item
      let (final, enqueuer, rest) := enqueuer.enqueueEach next epochSeconds now items
      (final, enqueuer, skipped :: rest)

end SingleCalls

end Enqueuer
