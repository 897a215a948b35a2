import WorkQueue.Redis.KeyTexts
import WorkQueue.Redis.Lua

/-! # The slots of a store

A store is a database whose keys are the keys of one namespace themselves. On its slots the
commands and the Lua scripts do what the operations of the store say, and fail where those do
(`Lua.run_redisLuaFetchJob` and the theorems that follow it).
-/

open Redis

namespace Store

/-- What the keys of the namespace hold. -/
def slots (store : Store) : Key → Slot
  | .list key => Slot.ofList (store.list key)
  | .zset key => Slot.ofZSet (store.zset key)
  | .paused name => if store.paused name then some (.number 1) else none
  | .lock name => (store.lock name).map .number
  | .lockInfo name => Slot.ofCounters (store.lockInfo name)
  | .concurrency name => ((store.maxConcurrency name).map Int.ofNat).map .number
  | .unique key => (store.unique key).map .bytes
  | .knownJobs => Slot.ofSet store.knownJobs
  | .workerPools => Slot.ofSet store.workerPools
  | .heartbeat pool => (store.heartbeat pool).map .heartbeat
  | .observation _ => none
  | .lastPeriodicEnqueue => none

section Updates

variable (store : Store)

/-- A store that holds something else under one key. -/
theorem slots_eq_update {store after : Store} {key : Key} {slot : Slot}
    (own : slots after key = slot) (others : ∀ other ≠ key, slots after other = slots store other) :
    slots after = Function.update (slots store) key slot :=
  Function.eq_update_iff.mpr ⟨own, others⟩

theorem slots_list (key : ListKey) (payloads : List RawJSON) :
    slots { store with list := Function.update store.list key payloads } =
      Function.update (slots store) (.list key) (Slot.ofList payloads) :=
  slots_eq_update (by simp [slots]) fun other different => by
    cases other <;> simp_all [slots]

theorem slots_zset (key : ZSetKey) (entries : SortedSet RawJSON) :
    slots { store with zset := Function.update store.zset key entries } =
      Function.update (slots store) (.zset key) (Slot.ofZSet entries) :=
  slots_eq_update (by simp [slots]) fun other different => by
    cases other <;> simp_all [slots]

theorem slots_lock (name : String) (value : Option Int) :
    slots { store with lock := Function.update store.lock name value } =
      Function.update (slots store) (.lock name) (value.map .number) :=
  slots_eq_update (by simp [slots]) fun other different => by
    cases other <;> simp_all [slots]

theorem slots_lockInfo (name : String) (fields : FinMap PoolID Int) :
    slots { store with lockInfo := Function.update store.lockInfo name fields } =
      Function.update (slots store) (.lockInfo name) (Slot.ofCounters fields) :=
  slots_eq_update (by simp [slots]) fun other different => by
    cases other <;> simp_all [slots]

theorem slots_unique (key : String) (value : Option RawJSON) :
    slots (store.setUnique key value) =
      Function.update (slots store) (.unique key) (value.map .bytes) :=
  slots_eq_update (by simp [slots, setUnique]) fun other different => by
    cases other with
    | paused => rfl
    | _ => simp_all [slots, setUnique]

theorem slots_maxConcurrency (name : String) (cap : ℕ) :
    slots { store with
        maxConcurrency := Function.update store.maxConcurrency name (some cap) } =
      Function.update (slots store) (.concurrency name) (some (.number cap)) :=
  slots_eq_update (by simp [slots]) fun other different => by
    cases other <;> simp_all [slots]

theorem slots_paused (name : String) (flag : Bool) :
    slots { store with paused := Function.update store.paused name flag } =
      Function.update (slots store) (.paused name)
        (if flag then some (.number 1) else none) :=
  slots_eq_update (by simp [slots]) fun other different => by
    cases other <;> simp_all [slots]

theorem slots_knownJobs (names : Finset String) :
    slots { store with knownJobs := names } =
      Function.update (slots store) .knownJobs (Slot.ofSet names) :=
  slots_eq_update (by simp [slots]) fun other different => by
    cases other <;> simp_all [slots]

theorem slots_workerPools (pools : Finset PoolID) :
    slots { store with workerPools := pools } =
      Function.update (slots store) .workerPools (Slot.ofSet pools) :=
  slots_eq_update (by simp [slots]) fun other different => by
    cases other <;> simp_all [slots]

theorem slots_heartbeat (pool : PoolID) (value : Option Heartbeat) :
    slots { store with heartbeat := Function.update store.heartbeat pool value } =
      Function.update (slots store) (.heartbeat pool) (value.map .heartbeat) :=
  slots_eq_update (by simp [slots]) fun other different => by
    cases other <;> simp_all [slots]

end Updates

end Store

namespace Redis

variable (store : Store)

section Lists

variable (key : ListKey) (raw : RawJSON)

theorem asList_slots : Slot.asList (store.slots (.list key)) = some (store.list key) :=
  Slot.asList_ofList _

theorem run_llen : (llen (Key.list key)).run (store.slots) =
    (store.slots, some (store.list key).length) := by
  rw [llen, run_fetch_bind (asList_slots store key), Program.run_pure]

theorem run_lpush : (lpush (Key.list key) raw).run (store.slots) =
    ((store.lpush key raw).slots, some ()) := by
  rw [lpush, run_fetch_bind (asList_slots store key), run_put, Store.lpush, Store.slots_list]

theorem run_lrem : (lrem (Key.list key) raw).run (store.slots) =
    ((store.lrem key raw).slots, some ()) := by
  rw [lrem, run_fetch_bind (asList_slots store key), run_put, Store.lrem, Store.slots_list]

theorem run_rpoplpush (source target : ListKey) :
    (rpoplpush (Key.list source) (Key.list target)).run (store.slots) =
      match store.rpoplpush source target with
      | some (raw, next) => (next.slots, some (some raw))
      | none => (store.slots, some none) := by
  rw [rpoplpush, run_fetch_bind (asList_slots store source), Store.rpoplpush]
  cases (store.list source).getLast? with
  | none => rfl
  | some raw =>
      simp only [Option.map_some]
      rw [run_fetch_bind (asList_slots store target), run_put_bind, ← Store.slots_list,
        Program.run_bind_of_some (run_lpush _ _ _), Program.run_pure]

end Lists

section Strings

theorem run_get_lock (name : String) : (get (Key.lock name)).run (store.slots) =
    (store.slots, some ((store.lock name).map .number)) :=
  run_fetch (Slot.asString_number (store.lock name))

theorem run_get_concurrency (name : String) : (get (Key.concurrency name)).run (store.slots) =
    (store.slots, some (((store.maxConcurrency name).map Int.ofNat).map .number)) :=
  run_fetch (Slot.asString_number _)

theorem run_get_paused (name : String) : (get (Key.paused name)).run (store.slots) =
    (store.slots, some (if store.paused name then some (.number 1) else none)) := by
  refine run_fetch ?_
  simp only [Store.slots]
  split <;> rfl

theorem run_incrby (name : String) (amount : Int) :
    (incrby (Key.lock name) amount).run (store.slots) =
      ((store.incrby name amount).slots, some ()) := by
  have holds : Slot.asNumber (store.slots (.lock name)) = some (store.lock name) :=
    Slot.asNumber_number _
  rw [incrby, run_fetch_bind holds, setNumber, run_put, Store.incrby, Store.slots_lock]
  rfl

theorem run_setNumber (name : String) (value : Int) :
    (setNumber (Key.lock name) value).run (store.slots) =
      ((store.setLock name value).slots, some ()) := by
  rw [setNumber, run_put, Store.setLock, Store.slots_lock]
  rfl

theorem run_getBytes (key : String) : (getBytes (Key.unique key)).run (store.slots) =
    (store.slots, some (store.unique key)) :=
  run_fetch (Slot.asBytes_bytes _)

theorem run_setBytes (key : String) (payload : RawJSON) :
    (setBytes (Key.unique key) payload).run (store.slots) =
      ((store.setUnique key (some payload)).slots, some ()) := by
  rw [setBytes, run_put, Store.slots_unique]
  rfl

theorem run_setNX (key : String) (payload : RawJSON) :
    (setNX (Key.unique key) payload).run (store.slots) =
      match store.unique key with
      | none => ((store.setUnique key (some payload)).slots, some true)
      | some _ => (store.slots, some false) := by
  rw [setNX, Program.run_read]
  cases found : store.unique key with
  | none =>
      have missing : store.slots (.unique key) = none := by simp [Store.slots, found]
      rw [missing]
      simp only
      rw [Program.run_bind_of_some (run_setBytes _ _ _), Program.run_pure]
  | some value =>
      have present : store.slots (.unique key) = some (.bytes value) := by
        simp [Store.slots, found]
      rw [present]
      rfl

theorem run_del_unique (key : String) : (del (Key.unique key)).run (store.slots) =
    ((store.setUnique key none).slots, some ()) := by
  rw [del, run_put, Store.slots_unique]
  rfl

end Strings

section Hashes

variable (name : String) (pool : PoolID)

theorem asCounters_slots :
    Slot.asCounters (store.slots (.lockInfo name)) = some (store.lockInfo name) :=
  Slot.asCounters_ofCounters _

theorem run_hincrby (amount : Int) :
    (hincrby (Key.lockInfo name) pool amount).run (store.slots) =
      ((store.hincrby name pool amount).slots, some ()) := by
  rw [hincrby, run_fetch_bind (asCounters_slots store name), run_put, Store.hincrby,
    Store.slots_lockInfo]

theorem run_hget : (hget (Key.lockInfo name) pool).run (store.slots) =
    (store.slots, some ((store.lockInfo name).get pool)) := by
  rw [hget, run_fetch_bind (asCounters_slots store name), Program.run_pure]

theorem run_hdel : (hdel (Key.lockInfo name) pool).run (store.slots) =
    ((store.hdel name pool).slots, some ()) := by
  rw [hdel, run_fetch_bind (asCounters_slots store name), run_put, Store.hdel,
    Store.slots_lockInfo]

end Hashes

section SortedSets

variable (key : ZSetKey)

theorem asZSet_slots : Slot.asZSet (store.slots (.zset key)) = some (store.zset key) :=
  Slot.asZSet_ofZSet _

theorem run_zadd (score : Int) (raw : RawJSON) :
    (zadd (Key.zset key) score raw).run (store.slots) =
      ((store.zadd key score raw).slots, some ()) := by
  rw [zadd, run_fetch_bind (asZSet_slots store key), run_put, Store.zadd, Store.slots_zset]

theorem run_zrem (raw : RawJSON) : (zrem (Key.zset key) raw).run (store.slots) =
    ((store.zrem key raw).slots, some ()) := by
  rw [zrem, run_fetch_bind (asZSet_slots store key), run_put, Store.zrem, Store.slots_zset]

theorem run_zrangeUpTo (bound : Int) : (zrangeUpTo (Key.zset key) bound).run (store.slots) =
    (store.slots, some ((store.zset key).upTo bound)) := by
  rw [zrangeUpTo, run_fetch_bind (asZSet_slots store key), Program.run_pure]

theorem run_zrangeAt (score : Int) : (zrangeAt (Key.zset key) score).run (store.slots) =
    (store.slots, some ((store.zset key).withScore score)) := by
  rw [zrangeAt, run_fetch_bind (asZSet_slots store key), Program.run_pure]

theorem run_del_dead : (del (Key.zset .dead)).run store.slots =
    (Store.slots { store with zset := Function.update store.zset .dead .empty }, some ()) := by
  rw [del, run_put, Store.slots_zset]
  rfl

end SortedSets

section Pools

variable (pool : PoolID)

theorem run_sadd_knownJobs (names : List String) : (sadd Key.knownJobs names).run store.slots =
    (Store.slots { store with knownJobs := store.knownJobs ∪ names.toFinset }, some ()) := by
  have holds : Slot.asSet (store.slots .knownJobs) = some store.knownJobs := Slot.asSet_ofSet _
  rw [sadd, run_fetch_bind holds, run_put, ← Store.slots_knownJobs]

theorem asSet_workerPools : Slot.asSet (store.slots .workerPools) = some store.workerPools :=
  Slot.asSet_ofSet _

theorem run_sadd_workerPools : (sadd Key.workerPools [pool]).run store.slots =
    (Store.slots { store with workerPools := insert pool store.workerPools }, some ()) := by
  have added : store.workerPools ∪ [pool].toFinset = insert pool store.workerPools := by
    rw [List.toFinset_cons, List.toFinset_nil, Finset.union_insert, Finset.union_empty]
  rw [sadd, run_fetch_bind (asSet_workerPools store), run_put, ← Store.slots_workerPools, added]

theorem run_srem_workerPools : (srem Key.workerPools pool).run store.slots =
    (Store.slots { store with workerPools := store.workerPools.erase pool }, some ()) := by
  rw [srem, run_fetch_bind (asSet_workerPools store), run_put, ← Store.slots_workerPools]

theorem run_smembers_workerPools : (smembers Key.workerPools).run store.slots =
    (store.slots, some store.workerPools) := run_fetch (asSet_workerPools store)

theorem asHeartbeat_slots :
    Slot.asHeartbeat (store.slots (.heartbeat pool)) = some (store.heartbeat pool) :=
  Slot.asHeartbeat_heartbeat _

theorem run_hmset (heartbeat : Heartbeat) : (hmset (Key.heartbeat pool) heartbeat).run store.slots =
    (Store.slots { store with
      heartbeat := Function.update store.heartbeat pool (some heartbeat) }, some ()) := by
  rw [hmset, run_fetch_bind (asHeartbeat_slots store pool), run_put, Store.slots_heartbeat]
  rfl

theorem run_del_heartbeat : (del (Key.heartbeat pool)).run store.slots =
    (Store.slots { store with heartbeat := Function.update store.heartbeat pool none },
      some ()) := by
  rw [del, run_put, Store.slots_heartbeat]
  rfl

theorem run_hgetHeartbeatAt : (hgetHeartbeatAt (Key.heartbeat pool)).run store.slots =
    (store.slots, some ((store.heartbeat pool).map Heartbeat.heartbeatAt)) := by
  rw [hgetHeartbeatAt, run_fetch_bind (asHeartbeat_slots store pool), Program.run_pure]

theorem run_hgetJobNames : (hgetJobNames (Key.heartbeat pool)).run store.slots =
    (store.slots, some ((store.heartbeat pool).map Heartbeat.jobNames)) := by
  rw [hgetJobNames, run_fetch_bind (asHeartbeat_slots store pool), Program.run_pure]

end Pools

section Flags

variable (name : String)

theorem run_set_concurrency (cap : ℕ) : (setNumber (Key.concurrency name) cap).run store.slots =
    (Store.slots { store with
      maxConcurrency := Function.update store.maxConcurrency name (some cap) }, some ()) := by
  rw [setNumber, run_put, Store.slots_maxConcurrency]

theorem run_set_paused : (setNumber (Key.paused name) 1).run store.slots =
    (Store.slots { store with paused := Function.update store.paused name true }, some ()) := by
  rw [setNumber, run_put, Store.slots_paused]
  rfl

theorem run_del_paused : (del (Key.paused name)).run store.slots =
    (Store.slots { store with paused := Function.update store.paused name false }, some ()) := by
  rw [del, run_put, Store.slots_paused]
  rfl

end Flags

end Redis

namespace Lua

variable (store : Store) (pool : PoolID)

section Locks

variable (name : String)

theorem run_acquireLock :
    (acquireLock (Key.lock name) (Key.lockInfo name) pool).run (store.slots) =
      ((store.acquireLock name pool).slots, some ()) := by
  rw [acquireLock, Program.run_bind_of_some (run_incrby _ _ _), run_hincrby]
  rfl

theorem run_releaseLock :
    (releaseLock (Key.lock name) (Key.lockInfo name) pool).run (store.slots) =
      ((store.releaseLock name pool).slots, some ()) := by
  rw [releaseLock, Program.run_bind_of_some (run_incrby _ _ _), run_hincrby]
  rfl

theorem run_haveJobs : (haveJobs (Key.list (.jobs name))).run (store.slots) =
    (store.slots, some (decide (store.list (.jobs name) ≠ []))) := by
  rw [haveJobs, Program.run_bind_of_some (run_llen _ _), Program.run_pure]
  simp [List.length_pos_iff]

theorem run_isPaused : (isPaused (Key.paused name)).run (store.slots) =
    (store.slots, some (store.paused name)) := by
  rw [isPaused, Program.run_bind_of_some (run_get_paused _ _), Program.run_pure]
  cases store.paused name <;> rfl

theorem tonumber_number (value : Option Int) : tonumber (value.map .number) = value := by
  cases value <;> rfl

theorem run_canRun :
    (canRun (Key.lock name) ((store.maxConcurrency name).map Int.ofNat)).run (store.slots) =
      (store.slots, some (store.canRun name)) := by
  rw [canRun, Program.run_bind_of_some (run_get_lock _ _), Program.run_pure, tonumber_number,
    Store.canRun]
  cases store.maxConcurrency name with
  | none => rfl
  | some cap => cases store.lock name <;> simp

theorem run_both {slots : Key → Slot} {left right : Script Key Bool} {first second : Bool}
    (ran : left.run slots = (slots, some first)) (next : right.run slots = (slots, some second)) :
    (both left right).run slots = (slots, some (first && second)) := by
  rw [both, Program.run_bind_of_some ran]
  cases first with
  | true => exact next
  | false => rfl

theorem run_negation {slots : Key → Slot} {condition : Script Key Bool} {holds : Bool}
    (ran : condition.run slots = (slots, some holds)) :
    (negation condition).run slots = (slots, some !holds) := by
  rw [negation, Program.run_bind_of_some ran, Program.run_pure]

/-- The keys that a worker gives the fetch script for a job name. -/
def fetchKeys (name : String) : List Key :=
  [.list (.jobs name), .list (.inProgress pool name), .paused name, .lock name, .lockInfo name,
    .concurrency name]

/-- The fetch script on the keys of some job names. -/
theorem run_redisLuaFetchJob (names : List String) :
    (redisLuaFetchJob pool (names.flatMap (fetchKeys pool))).run (store.slots) =
      ((store.redisLuaFetchJob pool names).1.slots,
        some ((store.redisLuaFetchJob pool names).2.map fun taken =>
          (some taken.1, Key.list taken.2.1, Key.list taken.2.2))) := by
  induction names with
  | nil => rfl
  | cons name names ih =>
      rw [List.flatMap_cons, fetchKeys, List.cons_append, List.cons_append, List.cons_append,
        List.cons_append, List.cons_append, List.cons_append, List.nil_append, redisLuaFetchJob,
        Program.run_bind_of_some (run_get_concurrency _ _), tonumber_number,
        Program.run_bind_of_some (run_both (run_haveJobs _ _)
          (run_both (run_negation (run_isPaused _ _)) (run_canRun _ _))),
        Store.redisLuaFetchJob]
      by_cases ready : store.list (.jobs name) ≠ [] ∧ store.paused name = false ∧
          store.canRun name = true
      · obtain ⟨filled, running, capacity⟩ := ready
        rw [if_pos (by simp [filled, running, capacity]), if_pos ⟨filled, running, capacity⟩,
          Program.run_bind_of_some (run_acquireLock _ _ _), Program.run_bind, run_rpoplpush]
        cases moved : (store.acquireLock name pool).rpoplpush (.jobs name)
            (.inProgress pool name) with
        | none =>
            have empty : (store.acquireLock name pool).list (.jobs name) = [] :=
              Store.rpoplpush_eq_none moved
            exact (filled empty).elim
        | some pair => rfl
      · rw [if_neg (by simpa using ready), if_neg ready, ih]

/-- The keys that a reaper and a pool that stops give the requeueing script for a job name. -/
def requeueKeys (name : String) : List Key :=
  [.list (.inProgress pool name), .list (.jobs name), .lock name, .lockInfo name]

/-- The requeueing script on the keys of some job names. -/
theorem run_redisLuaReenqueueJob (names : List String) :
    (redisLuaReenqueueJob pool (names.flatMap (requeueKeys pool))).run (store.slots) =
      ((store.redisLuaReenqueueJob pool names).1.slots,
        some ((store.redisLuaReenqueueJob pool names).2.map fun taken =>
          (taken.1, Key.list taken.2.1, Key.list taken.2.2))) := by
  induction names with
  | nil => rfl
  | cons name names ih =>
      rw [List.flatMap_cons, requeueKeys, List.cons_append, List.cons_append, List.cons_append,
        List.cons_append, List.nil_append, redisLuaReenqueueJob, Program.run_bind, run_rpoplpush,
        Store.redisLuaReenqueueJob]
      cases store.rpoplpush (.inProgress pool name) (.jobs name) with
      | none => exact ih
      | some pair =>
          simp only
          rw [Program.run_bind_of_some (run_releaseLock _ _ _), Program.run_pure]
          rfl

theorem run_reapStaleLock : (reapStaleLock pool (Key.lock name) (Key.lockInfo name)).run
    (store.slots) = ((Store.reapStaleLock pool store name).slots, some ()) := by
  rw [reapStaleLock, Program.run_bind_of_some (run_hget _ _ _), Store.reapStaleLock]
  cases (store.lockInfo name).get pool with
  | none => rfl
  | some count =>
      simp only
      rw [Program.run_bind_of_some (run_incrby _ _ _), Program.run_bind_of_some (run_hdel _ _ _),
        Program.run_bind_of_some (run_get_lock _ _), tonumber_number]
      have number : ((store.incrby name (-count)).hdel name pool).lock name =
          some ((store.lock name).getD 0 + -count) := by
        simp [Store.incrby, Store.hdel]
      rw [number]
      simp only [Option.getD_some]
      split
      · exact run_setNumber _ _ _
      · rfl

/-- The keys that the clean-up of locks is given for a job name. -/
def lockKeys (name : String) : List Key := [.lock name, .lockInfo name]

/-- The clean-up of locks on the keys of some job names. -/
theorem run_redisLuaReapStaleLocks (names : List String) :
    (redisLuaReapStaleLocks pool (names.flatMap lockKeys)).run (store.slots) =
      ((store.redisLuaReapStaleLocks pool names).slots, some ()) := by
  induction names generalizing store with
  | nil => rfl
  | cons name names ih =>
      rw [List.flatMap_cons, lockKeys, List.cons_append, List.cons_append, List.nil_append,
        redisLuaReapStaleLocks, Program.run_bind_of_some (run_reapStaleLock _ _ _), ih]
      rfl

end Locks

section Payloads

variable {slots : Key → Slot}

theorem run_decode (payload : RawJSON) :
    (decode payload : Script Key Json).run slots = (slots, Cjson.decode payload) := by
  unfold decode
  cases Cjson.decode payload <;> rfl

theorem run_encode (value : Json) :
    (encode value : Script Key RawJSON).run slots = (slots, Cjson.encode value) := by
  unfold encode
  cases Cjson.encode value <;> rfl

theorem run_nameOf (job : Json) : (nameOf job : Script Key String).run slots =
    (slots, (Cjson.index "name" job).bind Cjson.concat) := by
  unfold nameOf
  cases (Cjson.index "name" job).bind Cjson.concat <;> rfl

theorem run_idOf (job : Json) :
    (idOf job : Script Key (Option Json)).run slots = (slots, Cjson.index "id" job) := by
  unfold idOf
  cases Cjson.index "id" job <;> rfl

end Payloads

section Requeueing

/-- The queue of a name is among keys that are known queues and no lists if the name is. -/
theorem queue_mem_iff {front : List Key} {names : List String} {name : String}
    (other : ∀ key ∈ front, ∀ queue, key ≠ .list (.jobs queue)) :
    Key.list (.jobs name) ∈ front ++ names.map (fun name => Key.list (.jobs name)) ↔
      name ∈ names := by
  rw [List.mem_append, List.mem_map]
  constructor
  · rintro (first | ⟨queue, listed, same⟩)
    · exact (other _ first name rfl).elim
    · cases same
      exact listed
  · exact fun listed => .inr ⟨name, listed, rfl⟩

/-- The keys that a requeuer gives its script. -/
def zremLpushKeys (key : ZSetKey) (names : List String) : List Key :=
  Key.zset key :: .zset .dead :: names.map fun name => .list (.jobs name)

theorem queue_mem_zremLpushKeys (key : ZSetKey) (names : List String) (name : String) :
    Key.list (.jobs name) ∈ zremLpushKeys key names ↔ name ∈ names :=
  @queue_mem_iff [Key.zset key, .zset .dead] names name (by simp)

/-- What the reply says that a script without an error has. -/
def reply? : Store.RequeueReply → Option Store.RequeueReply
  | .error => none
  | reply => some reply

theorem run_encode_lpush {Reply : Type} (name : String) (job : Json) (reply : Reply) :
    (do
      let pushed ← encode job
      lpush (Key.list (.jobs name)) pushed
      return reply : Script Key Reply).run store.slots =
      match Cjson.encode job with
      | some pushed => ((store.lpush (.jobs name) pushed).slots, some reply)
      | none => (store.slots, none) := by
  rw [Program.run_bind, run_encode]
  cases Cjson.encode job with
  | none => rfl
  | some pushed => exact Program.run_bind_of_some (run_lpush _ _ _)

theorem run_encode_zadd {Reply : Type} (score : Int) (job : Json) (reply : Reply) :
    (do
      let pushed ← encode job
      zadd (Key.zset .dead) score pushed
      return reply : Script Key Reply).run store.slots =
      match Cjson.encode job with
      | some pushed => ((store.zadd .dead score pushed).slots, some reply)
      | none => (store.slots, none) := by
  rw [Program.run_bind, run_encode]
  cases Cjson.encode job with
  | none => rfl
  | some pushed => exact Program.run_bind_of_some (run_zadd _ _ _ _)

theorem run_redisLuaZremLpushCmd (key : ZSetKey) (names : List String) (now : Int64) :
    (redisLuaZremLpushCmd (zremLpushKeys key names) (fun name => .list (.jobs name)) now).run
        store.slots =
      ((store.redisLuaZremLpushCmd key names now).1.slots,
        reply? (store.redisLuaZremLpushCmd key names now).2) := by
  rw [zremLpushKeys, redisLuaZremLpushCmd, ← zremLpushKeys,
    Program.run_bind_of_some (run_zrangeUpTo _ _ _), Store.redisLuaZremLpushCmd]
  cases ((store.zset key).upTo now.toInt).head? with
  | none => rfl
  | some payload =>
      simp only
      rw [Program.run_bind, run_decode]
      cases Cjson.decode payload with
      | none => rfl
      | some job =>
          simp only
          rw [Program.run_bind_of_some (run_zrem _ _ _), Program.run_bind, run_nameOf]
          cases (Cjson.index "name" job).bind Cjson.concat with
          | none => rfl
          | some name =>
              simp only [queue_mem_zremLpushKeys]
              split
              · rw [run_encode_lpush]
                cases Cjson.encode (Store.requeuedJob now job) <;> rfl
              · rw [run_encode_zadd]
                cases Cjson.encode (Store.unknownJob now job) <;> rfl

/-- The keys that a client gives the scripts that requeue dead jobs. -/
def deadKeys (names : List String) : List Key :=
  Key.zset .dead :: names.map fun name => .list (.jobs name)

variable (names : List String) (now : Int64)

theorem queue_mem_deadKeys (name : String) :
    Key.list (.jobs name) ∈ deadKeys names ↔ name ∈ names :=
  @queue_mem_iff [Key.zset .dead] names name (by simp)

theorem run_requeueDeadJob (payload : RawJSON) (job : Json) :
    (requeueDeadJob (deadKeys names) (.zset .dead) (fun name => .list (.jobs name)) now payload
        job).run store.slots =
      ((store.requeueDeadJob names now payload job).1.slots,
        (store.requeueDeadJob names now payload job).2) := by
  rw [requeueDeadJob, Store.requeueDeadJob, Program.run_bind_of_some (run_zrem _ _ _),
    Program.run_bind, run_nameOf]
  cases (Cjson.index "name" job).bind Cjson.concat with
  | none => rfl
  | some name =>
      simp only [queue_mem_deadKeys]
      split
      · rw [run_encode_lpush]
        cases Cjson.encode (Store.revivedJob now job) <;> rfl
      · rw [run_encode_zadd]
        cases Cjson.encode (Store.unknownJob now job) <;> rfl

theorem run_requeueLoop {wanted : Json → Option Bool} {test : Json → Script Key Bool}
    (same : ∀ job slots, (test job).run slots = (slots, wanted job)) (payloads : List RawJSON)
    (requeued : ℕ) :
    (requeueLoop (deadKeys names) (.zset .dead) (fun name => .list (.jobs name)) now test
        payloads requeued).run store.slots =
      ((Store.requeueLoop names now wanted payloads store requeued).1.slots,
        (Store.requeueLoop names now wanted payloads store requeued).2) := by
  induction payloads generalizing store requeued with
  | nil => rfl
  | cons payload payloads ih =>
      rw [requeueLoop, Store.requeueLoop, Program.run_bind, run_decode]
      cases Cjson.decode payload with
      | none => rfl
      | some job =>
          simp only
          rw [Program.run_bind, same]
          obtain _ | _ | _ := wanted job
          · rfl
          · exact ih store requeued
          · simp only [if_true]
            rw [Program.run_bind, run_requeueDeadJob]
            rcases store.requeueDeadJob names now payload job with ⟨next, _ | count⟩
            · rfl
            · exact ih next _

theorem run_sameID (jobID : String) (job : Json) (slots : Key → Slot) :
    (sameID jobID job : Script Key Bool).run slots = (slots, Store.sameID jobID job) := by
  rw [sameID, Store.sameID, Program.run_bind, run_idOf]
  cases Cjson.index "id" job <;> rfl

theorem run_redisLuaRequeueSingleDeadCmd (diedAt : Int64) (jobID : String) :
    (redisLuaRequeueSingleDeadCmd (deadKeys names) (fun name => .list (.jobs name)) now diedAt
        jobID).run store.slots =
      ((store.redisLuaRequeueSingleDeadCmd names now diedAt jobID).1.slots,
        (store.redisLuaRequeueSingleDeadCmd names now diedAt jobID).2) := by
  rw [deadKeys, redisLuaRequeueSingleDeadCmd, ← deadKeys,
    Program.run_bind_of_some (run_zrangeAt _ _ _), run_requeueLoop _ _ _ (run_sameID jobID)]
  rfl

theorem run_redisLuaRequeueAllDeadCmd (limit : ℕ) :
    (redisLuaRequeueAllDeadCmd (deadKeys names) (fun name => .list (.jobs name)) now limit).run
        store.slots =
      ((store.redisLuaRequeueAllDeadCmd names now limit).1.slots,
        (store.redisLuaRequeueAllDeadCmd names now limit).2) := by
  rw [deadKeys, redisLuaRequeueAllDeadCmd, ← deadKeys,
    Program.run_bind_of_some (run_zrangeUpTo _ _ _), run_requeueLoop _ _ _ fun _ _ => rfl]
  rfl

theorem run_deleteLoop (key : ZSetKey) (jobID : String) (payloads : List RawJSON)
    (deleted : ℕ × Option RawJSON) :
    (deleteLoop (Key.zset key) jobID payloads deleted).run store.slots =
      ((Store.deleteLoop key jobID payloads store deleted).1.slots,
        (Store.deleteLoop key jobID payloads store deleted).2) := by
  induction payloads generalizing store deleted with
  | nil => rfl
  | cons payload payloads ih =>
      rw [deleteLoop, Store.deleteLoop, Program.run_bind, run_decode]
      cases Cjson.decode payload with
      | none => rfl
      | some job =>
          simp only [Option.bind_some]
          rw [Program.run_bind, run_idOf]
          cases Cjson.index "id" job with
          | none => rfl
          | some id =>
              simp only
              split
              · rw [Program.run_bind_of_some (run_zrem _ _ _), ih]
              · exact ih store deleted

theorem run_redisLuaDeleteSingleCmd (key : ZSetKey) (score : Int64) (jobID : String) :
    (redisLuaDeleteSingleCmd (Key.zset key) score jobID).run store.slots =
      ((store.redisLuaDeleteSingleCmd key score jobID).1.slots,
        (store.redisLuaDeleteSingleCmd key score jobID).2) := by
  rw [redisLuaDeleteSingleCmd, Program.run_bind_of_some (run_zrangeAt _ _ _), run_deleteLoop]
  rfl

end Requeueing

section Unique

variable (key : String) (job updated : RawJSON)

theorem run_redisLuaEnqueueUnique (queue : String) :
    (redisLuaEnqueueUnique (Key.list (.jobs queue)) (.unique key) job updated).run store.slots =
      ((store.redisLuaEnqueueUnique queue key job updated).1.slots,
        some (store.redisLuaEnqueueUnique queue key job updated).2) := by
  rw [redisLuaEnqueueUnique, Store.redisLuaEnqueueUnique, Program.run_bind, run_setNX]
  cases store.unique key with
  | none =>
      simp only [if_true]
      rw [Program.run_bind_of_some (run_lpush _ _ _), Program.run_pure]
  | some value =>
      simp only [Bool.false_eq_true, if_false]
      rw [Program.run_bind_of_some (run_setBytes _ _ _), Program.run_pure]

theorem run_redisLuaEnqueueUniqueIn (runAt : Int64) :
    (redisLuaEnqueueUniqueIn (Key.zset .scheduled) (.unique key) job updated runAt).run
        store.slots =
      ((store.redisLuaEnqueueUniqueIn key job updated runAt).1.slots,
        some (store.redisLuaEnqueueUniqueIn key job updated runAt).2) := by
  rw [redisLuaEnqueueUniqueIn, Store.redisLuaEnqueueUniqueIn, Program.run_bind, run_setNX]
  cases store.unique key with
  | none =>
      simp only [if_true]
      rw [Program.run_bind_of_some (run_zadd _ _ _ _), Program.run_pure]
  | some value =>
      simp only [Bool.false_eq_true, if_false]
      rw [Program.run_bind_of_some (run_setBytes _ _ _), Program.run_pure]

end Unique

end Lua
