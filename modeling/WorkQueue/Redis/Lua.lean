import WorkQueue.Redis.Commands
import WorkQueue.Redis.Scripts

/-! # The Lua scripts on keys

The scripts as they are written, with the keys they are given in one list. The loops over `KEYS`
read as many keys at a time as the caller has put there for each job name. A script that looks
for a queue by name appends the name to the beginning of all queues and compares the text with
all of its keys; here that is a function from names to keys.
-/

namespace Lua

open Redis

variable {Key : Type}

def acquireLock (lockKey lockInfoKey : Key) (workerPoolID : PoolID) : Script Key Unit := do
  incrby lockKey 1
  hincrby lockInfoKey workerPoolID 1

def releaseLock (lockKey lockInfoKey : Key) (workerPoolID : PoolID) : Script Key Unit := do
  incrby lockKey (-1)
  hincrby lockInfoKey workerPoolID (-1)

def haveJobs (jobQueue : Key) : Script Key Bool := do
  let length ← llen jobQueue
  return decide (0 < length)

def isPaused (pauseKey : Key) : Script Key Bool := do
  let value ← get pauseKey
  return value.isSome

def canRun (lockKey : Key) (maxConcurrency : Option Int) : Script Key Bool := do
  let value ← get lockKey
  return maxConcurrency.all fun cap => cap = 0 || (tonumber value).all fun active => active < cap

/-- A conjunction of Lua, whose right side is not evaluated if the left one is false. -/
def both (left right : Script Key Bool) : Script Key Bool := do
  let holds ← left
  if holds then right else return false

def negation (condition : Script Key Bool) : Script Key Bool := do
  let holds ← condition
  return !holds

/-- Six keys for each job name. -/
def redisLuaFetchJob (workerPoolID : PoolID) :
    List Key → Script Key (Option (Option RawJSON × Key × Key))
  | jobQueue :: inProgQueue :: pauseKey :: lockKey :: lockInfoKey :: concurrencyKey :: keys => do
      let maxConcurrency ← get concurrencyKey
      let eligible ← both (haveJobs jobQueue)
        (both (negation (isPaused pauseKey)) (canRun lockKey (tonumber maxConcurrency)))
      if eligible then
        acquireLock lockKey lockInfoKey workerPoolID
        let res ← rpoplpush jobQueue inProgQueue
        return some (res, jobQueue, inProgQueue)
      else redisLuaFetchJob workerPoolID keys
  | _ => return none

/-- Four keys for each job name. -/
def redisLuaReenqueueJob (workerPoolID : PoolID) :
    List Key → Script Key (Option (RawJSON × Key × Key))
  | inProgQueue :: jobQueue :: lockKey :: lockInfoKey :: keys => do
      let res ← rpoplpush inProgQueue jobQueue
      match res with
      | some payload =>
          releaseLock lockKey lockInfoKey workerPoolID
          return some (payload, inProgQueue, jobQueue)
      | none => redisLuaReenqueueJob workerPoolID keys
  | _ => return none

/-- The body of the loop over locks. A lock that is no number cannot be compared. -/
def reapStaleLock (deadPoolID : PoolID) (lock lockInfo : Key) : Script Key Unit := do
  let deadLockCount ← hget lockInfo deadPoolID
  match deadLockCount with
  | some count =>
      incrby lock (-count)
      hdel lockInfo deadPoolID
      let value ← get lock
      match tonumber value with
      | some left => if left < 0 then setNumber lock 0
      | none => .fail
  | none => return ()

/-- Two keys for each job name. -/
def redisLuaReapStaleLocks (deadPoolID : PoolID) : List Key → Script Key Unit
  | lock :: lockInfo :: keys => do
      reapStaleLock deadPoolID lock lockInfo
      redisLuaReapStaleLocks deadPoolID keys
  | _ => return ()

/-- Encode a value; a value that cannot be encoded is an error. -/
def encode (value : Json) : Script Key RawJSON :=
  match Cjson.encode value with
  | some payload => pure payload
  | none => .fail

/-- Decode a payload; a payload that cannot be decoded is an error. -/
def decode (payload : RawJSON) : Script Key Json :=
  match Cjson.decode payload with
  | some value => pure value
  | none => .fail

/-- The name of a job, which must be something that can be appended to a text. -/
def nameOf (job : Json) : Script Key String :=
  match (Cjson.index "name" job).bind Cjson.concat with
  | some name => pure name
  | none => .fail

/-- The identifier of a job, which must be a table. -/
def idOf (job : Json) : Script Key (Option Json) :=
  match Cjson.index "id" job with
  | some id => pure id
  | none => .fail

/-- The first keys are the sorted set and the dead jobs, the others the known queues. -/
def redisLuaZremLpushCmd [DecidableEq Key] (keys : List Key) (queueOf : String → Key)
    (now : Int64) : Script Key Store.RequeueReply :=
  match keys with
  | zset :: dead :: _ => do
      let res ← zrangeUpTo zset now.toInt
      match res.head? with
      | none => return .nothing
      | some payload =>
          let job ← decode payload
          zrem zset payload
          let name ← nameOf job
          if queueOf name ∈ keys then
            let pushed ← encode (Store.requeuedJob now job)
            lpush (queueOf name) pushed
            return .ok
          else
            let pushed ← encode (Store.unknownJob now job)
            zadd dead now.toInt pushed
            return .dead
  | _ => .fail

/-- The loop of the deletion over the members with the score. -/
def deleteLoop (zset : Key) (jobID : String) :
    List RawJSON → ℕ × Option RawJSON → Script Key (ℕ × Option RawJSON)
  | [], deleted => return deleted
  | payload :: rest, deleted => do
      let job ← decode payload
      let id ← idOf job
      if id = some (.str jobID) then
        zrem zset payload
        deleteLoop zset jobID rest (deleted.1 + 1, some payload)
      else deleteLoop zset jobID rest deleted

def redisLuaDeleteSingleCmd (zset : Key) (score : Int64) (jobID : String) :
    Script Key (ℕ × Option RawJSON) := do
  let jobs ← zrangeAt zset score.toInt
  deleteLoop zset jobID jobs (0, none)

/-- The requeueing of one dead job, the same in both scripts. -/
def requeueDeadJob [DecidableEq Key] (keys : List Key) (dead : Key) (queueOf : String → Key)
    (now : Int64) (payload : RawJSON) (job : Json) : Script Key ℕ := do
  zrem dead payload
  let name ← nameOf job
  if queueOf name ∈ keys then
    let pushed ← encode (Store.revivedJob now job)
    lpush (queueOf name) pushed
    return 1
  else
    let pushed ← encode (Store.unknownJob now job)
    zadd dead (now.toInt + 5) pushed
    return 0

/-- The loop over some dead jobs, the same in both scripts but for a test. -/
def requeueLoop [DecidableEq Key] (keys : List Key) (dead : Key) (queueOf : String → Key)
    (now : Int64) (wanted : Json → Script Key Bool) : List RawJSON → ℕ → Script Key ℕ
  | [], requeued => return requeued
  | payload :: rest, requeued => do
      let job ← decode payload
      if ← wanted job then
        let count ← requeueDeadJob keys dead queueOf now payload job
        requeueLoop keys dead queueOf now wanted rest (requeued + count)
      else requeueLoop keys dead queueOf now wanted rest requeued

/-- The test for the identifier of a job. -/
def sameID (jobID : String) (job : Json) : Script Key Bool := do
  let id ← idOf job
  return id = some (.str jobID)

/-- The first key is the set of dead jobs, the others the known queues. -/
def redisLuaRequeueSingleDeadCmd [DecidableEq Key] (keys : List Key) (queueOf : String → Key)
    (now diedAt : Int64) (jobID : String) : Script Key ℕ :=
  match keys with
  | dead :: _ => do
      let jobs ← zrangeAt dead diedAt.toInt
      requeueLoop keys dead queueOf now (sameID jobID) jobs 0
  | [] => .fail

def redisLuaRequeueAllDeadCmd [DecidableEq Key] (keys : List Key) (queueOf : String → Key)
    (now : Int64) (limit : ℕ) : Script Key ℕ :=
  match keys with
  | dead :: _ => do
      let jobs ← zrangeUpTo dead now.toInt
      requeueLoop keys dead queueOf now (fun _ => return true) (jobs.take limit) 0
  | [] => .fail

def redisLuaEnqueueUnique (queue uniqueKey : Key) (job updated : RawJSON) : Script Key Bool := do
  let free ← setNX uniqueKey updated
  if free then
    lpush queue job
    return true
  else
    setBytes uniqueKey updated
    return false

def redisLuaEnqueueUniqueIn (scheduled uniqueKey : Key) (job updated : RawJSON)
    (runAt : Int64) : Script Key Bool := do
  let free ← setNX uniqueKey updated
  if free then
    zadd scheduled runAt.toInt job
    return true
  else
    setBytes uniqueKey updated
    return false

section Naming

open Program

variable {Name : Type} {named : Key → Name → Prop}

/-- What a script has moved, and the lists it has moved it between. -/
def Moved {Payload : Type} (named : Key → Name → Prop) (moved : Payload × Key × Key)
    (moved' : Payload × Name × Name) : Prop :=
  moved'.1 = moved.1 ∧ named moved.2.1 moved'.2.1 ∧ named moved.2.2 moved'.2.2

section Locks

variable {lock info paused queue : Key} {lock' info' paused' queue' : Name} (pool : PoolID)

theorem mirrors_acquireLock (locks : named lock lock') (infos : named info info') :
    Mirrors named Eq (acquireLock lock info pool) (acquireLock lock' info' pool) :=
  (mirrors_incrby locks 1).bind fun _ _ _ => mirrors_hincrby infos pool 1

theorem mirrors_releaseLock (locks : named lock lock') (infos : named info info') :
    Mirrors named Eq (releaseLock lock info pool) (releaseLock lock' info' pool) :=
  (mirrors_incrby locks (-1)).bind fun _ _ _ => mirrors_hincrby infos pool (-1)

theorem mirrors_haveJobs (queues : named queue queue') :
    Mirrors named Eq (haveJobs queue) (haveJobs queue') := by
  apply (mirrors_llen queues).bind
  rintro length _ rfl
  exact .pure rfl

theorem mirrors_isPaused (pauses : named paused paused') :
    Mirrors named Eq (isPaused paused) (isPaused paused') := by
  apply (mirrors_get pauses).bind
  rintro value _ rfl
  exact .pure rfl

theorem mirrors_canRun (locks : named lock lock') (maxConcurrency : Option Int) :
    Mirrors named Eq (canRun lock maxConcurrency) (canRun lock' maxConcurrency) := by
  apply (mirrors_get locks).bind
  rintro value _ rfl
  exact .pure rfl

theorem mirrors_both {left right : Script Key Bool} {left' right' : Script Name Bool}
    (first : Mirrors named Eq left left') (second : Mirrors named Eq right right') :
    Mirrors named Eq (both left right) (both left' right') := by
  apply first.bind
  rintro holds _ rfl
  cases holds with
  | true => exact second
  | false => exact .pure rfl

theorem mirrors_negation {condition : Script Key Bool} {condition' : Script Name Bool}
    (mirrors : Mirrors named Eq condition condition') :
    Mirrors named Eq (negation condition) (negation condition') := by
  apply mirrors.bind
  rintro holds _ rfl
  exact .pure rfl

theorem mirrors_redisLuaFetchJob : ∀ {keys : List Key} {keys' : List Name},
    List.Forall₂ named keys keys' → Mirrors named (Option.Rel (Moved named))
      (redisLuaFetchJob pool keys) (redisLuaFetchJob pool keys')
  | _, _, .cons jobs (.cons inProgress (.cons paused (.cons lock (.cons info
      (.cons cap rest))))) => by
      apply (mirrors_get cap).bind
      rintro maxConcurrency _ rfl
      apply (mirrors_both (mirrors_haveJobs jobs)
        (mirrors_both (mirrors_negation (mirrors_isPaused paused)) (mirrors_canRun lock _))).bind
      rintro eligible _ rfl
      cases eligible with
      | true =>
          apply (mirrors_acquireLock pool lock info).bind
          intro _ _ _
          apply (mirrors_rpoplpush jobs inProgress).bind
          rintro res _ rfl
          exact .pure (.some ⟨rfl, jobs, inProgress⟩)
      | false => exact mirrors_redisLuaFetchJob rest
  | _, _, .nil => .pure .none
  | _, _, .cons _ .nil => .pure .none
  | _, _, .cons _ (.cons _ .nil) => .pure .none
  | _, _, .cons _ (.cons _ (.cons _ .nil)) => .pure .none
  | _, _, .cons _ (.cons _ (.cons _ (.cons _ .nil))) => .pure .none
  | _, _, .cons _ (.cons _ (.cons _ (.cons _ (.cons _ .nil)))) => .pure .none

theorem mirrors_redisLuaReenqueueJob : ∀ {keys : List Key} {keys' : List Name},
    List.Forall₂ named keys keys' → Mirrors named (Option.Rel (Moved named))
      (redisLuaReenqueueJob pool keys) (redisLuaReenqueueJob pool keys')
  | _, _, .cons inProgress (.cons jobs (.cons lock (.cons info rest))) => by
      apply (mirrors_rpoplpush inProgress jobs).bind
      rintro res _ rfl
      cases res with
      | some payload =>
          apply (mirrors_releaseLock pool lock info).bind
          intro _ _ _
          exact .pure (.some ⟨rfl, inProgress, jobs⟩)
      | none => exact mirrors_redisLuaReenqueueJob rest
  | _, _, .nil => .pure .none
  | _, _, .cons _ .nil => .pure .none
  | _, _, .cons _ (.cons _ .nil) => .pure .none
  | _, _, .cons _ (.cons _ (.cons _ .nil)) => .pure .none

theorem mirrors_reapStaleLock (locks : named lock lock') (infos : named info info') :
    Mirrors named Eq (reapStaleLock pool lock info) (reapStaleLock pool lock' info') := by
  apply (mirrors_hget infos pool).bind
  rintro deadLockCount _ rfl
  cases deadLockCount with
  | none => exact .pure rfl
  | some count =>
      apply (mirrors_incrby locks (-count)).bind
      intro _ _ _
      apply (mirrors_hdel infos pool).bind
      intro _ _ _
      apply (mirrors_get locks).bind
      rintro value _ rfl
      cases tonumber value with
      | none => exact .fail
      | some left =>
          by_cases negative : left < 0
          · simp only [if_pos negative]
            exact mirrors_setNumber locks 0
          · simp only [if_neg negative]
            exact .pure rfl

theorem mirrors_redisLuaReapStaleLocks : ∀ {keys : List Key} {keys' : List Name},
    List.Forall₂ named keys keys' →
    Mirrors named Eq (redisLuaReapStaleLocks pool keys) (redisLuaReapStaleLocks pool keys')
  | _, _, .cons lock (.cons info rest) =>
      (mirrors_reapStaleLock pool lock info).bind fun _ _ _ => mirrors_redisLuaReapStaleLocks rest
  | _, _, .nil => .pure rfl
  | _, _, .cons _ .nil => .pure rfl

end Locks

section Payloads

theorem mirrors_encode (value : Json) :
    Mirrors named Eq (encode value : Script Key RawJSON) (encode value) := by
  unfold encode
  cases Cjson.encode value with
  | none => exact .fail
  | some payload => exact .pure rfl

theorem mirrors_decode (payload : RawJSON) :
    Mirrors named Eq (decode payload : Script Key Json) (decode payload) := by
  unfold decode
  cases Cjson.decode payload with
  | none => exact .fail
  | some value => exact .pure rfl

theorem mirrors_nameOf (job : Json) :
    Mirrors named Eq (nameOf job : Script Key String) (nameOf job) := by
  unfold nameOf
  cases (Cjson.index "name" job).bind Cjson.concat with
  | none => exact .fail
  | some name => exact .pure rfl

theorem mirrors_idOf (job : Json) :
    Mirrors named Eq (idOf job : Script Key (Option Json)) (idOf job) := by
  unfold idOf
  cases Cjson.index "id" job with
  | none => exact .fail
  | some id => exact .pure rfl

end Payloads

section Queues

variable [DecidableEq Key] [DecidableEq Name] {keys : List Key} {keys' : List Name} {dead : Key}
  {dead' : Name} {queueOf : String → Key} {queueOf' : String → Name}
  (known : ∀ name, queueOf name ∈ keys ↔ queueOf' name ∈ keys')
  (queues : ∀ name, queueOf name ∈ keys → named (queueOf name) (queueOf' name))
  (now : Int64) (jobID : String)

include known queues

/-- A job goes to its queue if that is known, and among the dead jobs otherwise. -/
theorem mirrors_route (deads : named dead dead') (name : String) (score : Int)
    (queued buried : Json) {Result : Type} (moved kept : Result) :
    Mirrors named Eq
      (if queueOf name ∈ keys then do
        let pushed ← encode queued
        lpush (queueOf name) pushed
        return moved
      else do
        let pushed ← encode buried
        zadd dead score pushed
        return kept)
      (if queueOf' name ∈ keys' then do
        let pushed ← encode queued
        lpush (queueOf' name) pushed
        return moved
      else do
        let pushed ← encode buried
        zadd dead' score pushed
        return kept) := by
  by_cases listed : queueOf name ∈ keys
  · rw [if_pos listed, if_pos ((known name).mp listed)]
    apply (mirrors_encode queued).bind
    rintro pushed _ rfl
    exact (mirrors_lpush (queues name listed) pushed).bind fun _ _ _ => .pure rfl
  · rw [if_neg listed, if_neg fun listed' => listed ((known name).mpr listed')]
    apply (mirrors_encode buried).bind
    rintro pushed _ rfl
    exact (mirrors_zadd deads score pushed).bind fun _ _ _ => .pure rfl

theorem mirrors_requeueDeadJob (deads : named dead dead') (payload : RawJSON) (job : Json) :
    Mirrors named Eq (requeueDeadJob keys dead queueOf now payload job)
      (requeueDeadJob keys' dead' queueOf' now payload job) := by
  apply (mirrors_zrem deads payload).bind
  intro _ _ _
  apply (mirrors_nameOf job).bind
  rintro name _ rfl
  exact mirrors_route known queues deads name _ _ _ _ _

theorem mirrors_requeueLoop {wanted : Json → Script Key Bool} {wanted' : Json → Script Name Bool}
    (deads : named dead dead') (tests : ∀ job, Mirrors named Eq (wanted job) (wanted' job))
    (payloads : List RawJSON) (requeued : ℕ) :
    Mirrors named Eq (requeueLoop keys dead queueOf now wanted payloads requeued)
      (requeueLoop keys' dead' queueOf' now wanted' payloads requeued) := by
  induction payloads generalizing requeued with
  | nil => exact .pure rfl
  | cons payload payloads ih =>
      apply (mirrors_decode payload).bind
      rintro job _ rfl
      apply (tests job).bind
      rintro found _ rfl
      cases found with
      | true =>
          apply (mirrors_requeueDeadJob known queues now deads payload job).bind
          rintro count _ rfl
          exact ih _
      | false => exact ih _

theorem mirrors_redisLuaRequeueSingleDeadCmd (listed : List.Forall₂ named keys keys')
    (diedAt : Int64) :
    Mirrors named Eq (redisLuaRequeueSingleDeadCmd keys queueOf now diedAt jobID)
      (redisLuaRequeueSingleDeadCmd keys' queueOf' now diedAt jobID) := by
  cases listed with
  | nil => exact .fail
  | cons deads rest =>
      apply (mirrors_zrangeAt deads diedAt.toInt).bind
      rintro jobs _ rfl
      refine mirrors_requeueLoop known queues now deads (fun job => ?_) jobs 0
      exact (mirrors_idOf job).bind fun _ _ same => .pure (by rw [same])

theorem mirrors_redisLuaRequeueAllDeadCmd (listed : List.Forall₂ named keys keys')
    (limit : ℕ) :
    Mirrors named Eq (redisLuaRequeueAllDeadCmd keys queueOf now limit)
      (redisLuaRequeueAllDeadCmd keys' queueOf' now limit) := by
  cases listed with
  | nil => exact .fail
  | cons deads rest =>
      apply (mirrors_zrangeUpTo deads now.toInt).bind
      rintro jobs _ rfl
      exact mirrors_requeueLoop known queues now deads (fun _ => .pure rfl) _ 0

theorem mirrors_redisLuaZremLpushCmd (listed : List.Forall₂ named keys keys') :
    Mirrors named Eq (redisLuaZremLpushCmd keys queueOf now)
      (redisLuaZremLpushCmd keys' queueOf' now) := by
  cases listed with
  | nil => exact .fail
  | cons zsets rest =>
      cases rest with
      | nil => exact .fail
      | cons deads rest =>
          apply (mirrors_zrangeUpTo zsets now.toInt).bind
          rintro res _ rfl
          cases res.head? with
          | none => exact .pure rfl
          | some payload =>
              apply (mirrors_decode payload).bind
              rintro job _ rfl
              apply (mirrors_zrem zsets payload).bind
              intro _ _ _
              apply (mirrors_nameOf job).bind
              rintro name _ rfl
              exact mirrors_route known queues deads name _ _ _ _ _

end Queues

section Single

variable {zset queue uniqueKey : Key} {zset' queue' uniqueKey' : Name}

theorem mirrors_deleteLoop (zsets : named zset zset') (jobID : String) (payloads : List RawJSON)
    (deleted : ℕ × Option RawJSON) :
    Mirrors named Eq (deleteLoop zset jobID payloads deleted)
      (deleteLoop zset' jobID payloads deleted) := by
  induction payloads generalizing deleted with
  | nil => exact .pure rfl
  | cons payload payloads ih =>
      apply (mirrors_decode payload).bind
      rintro job _ rfl
      apply (mirrors_idOf job).bind
      rintro id _ rfl
      by_cases found : id = some (.str jobID)
      · rw [if_pos found, if_pos found]
        exact (mirrors_zrem zsets payload).bind fun _ _ _ => ih _
      · rw [if_neg found, if_neg found]
        exact ih _

theorem mirrors_redisLuaDeleteSingleCmd (zsets : named zset zset') (score : Int64)
    (jobID : String) :
    Mirrors named Eq (redisLuaDeleteSingleCmd zset score jobID)
      (redisLuaDeleteSingleCmd zset' score jobID) := by
  apply (mirrors_zrangeAt zsets score.toInt).bind
  rintro jobs _ rfl
  exact mirrors_deleteLoop zsets jobID jobs _

theorem mirrors_redisLuaEnqueueUnique (queues : named queue queue')
    (keys : named uniqueKey uniqueKey') (job updated : RawJSON) :
    Mirrors named Eq (redisLuaEnqueueUnique queue uniqueKey job updated)
      (redisLuaEnqueueUnique queue' uniqueKey' job updated) := by
  apply (mirrors_setNX keys updated).bind
  rintro free _ rfl
  cases free with
  | true => exact (mirrors_lpush queues job).bind fun _ _ _ => .pure rfl
  | false => exact (mirrors_setBytes keys updated).bind fun _ _ _ => .pure rfl

theorem mirrors_redisLuaEnqueueUniqueIn (zsets : named zset zset')
    (keys : named uniqueKey uniqueKey') (job updated : RawJSON) (runAt : Int64) :
    Mirrors named Eq (redisLuaEnqueueUniqueIn zset uniqueKey job updated runAt)
      (redisLuaEnqueueUniqueIn zset' uniqueKey' job updated runAt) := by
  apply (mirrors_setNX keys updated).bind
  rintro free _ rfl
  cases free with
  | true => exact (mirrors_zadd zsets _ job).bind fun _ _ _ => .pure rfl
  | false => exact (mirrors_setBytes keys updated).bind fun _ _ _ => .pure rfl

end Single

end Naming

end Lua
