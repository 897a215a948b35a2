import WorkQueue.Payload.Cjson
import WorkQueue.Redis.Store

/-! # The Lua scripts

Each script runs atomically on the store. A Lua error ends a script where it
occurs and undoes nothing, so a script returns the store it has reached together
with its reply.

The theorems of this module say once what each script can do: the script either
leaves everything alone or moves one payload with the lock that belongs to it
(`redisLuaFetchJob_cases`, `redisLuaReenqueueJob_cases`, `redisLuaZremLpushCmd_cases`),
and the clean-up of stale locks forgets a pool on the ledgers of the given names
(`ledger_redisLuaReapStaleLocks`).
-/

namespace Store

/-- Whether a job of the name may start: there is no cap, or no lock, or the lock is
below the cap. -/
def canRun (store : Store) (name : String) : Bool :=
  match store.maxConcurrency name with
  | none => true
  | some cap =>
      cap = 0 ||
        match store.lock name with
        | none => true
        | some active => active < cap

/-- Fetch the next job of the first queue that has one, is not paused and is below
its cap. -/
def redisLuaFetchJob (store : Store) (workerPoolID : PoolID) :
    List String → Store × Option (RawJSON × ListKey × ListKey)
  | [] => (store, none)
  | name :: names =>
      if store.list (.jobs name) ≠ [] ∧ store.paused name = false ∧ store.canRun name then
        match (store.acquireLock name workerPoolID).rpoplpush (.jobs name)
            (.inProgress workerPoolID name) with
        | some (raw, next) => (next, some (raw, .jobs name, .inProgress workerPoolID name))
        | none => (store.acquireLock name workerPoolID, none)
      else redisLuaFetchJob store workerPoolID names

/-- Move one job in progress back to its queue and return its lock. -/
def redisLuaReenqueueJob (store : Store) (workerPoolID : PoolID) :
    List String → Store × Option (RawJSON × ListKey × ListKey)
  | [] => (store, none)
  | name :: names =>
      match store.rpoplpush (.inProgress workerPoolID name) (.jobs name) with
      | some (raw, next) =>
          (next.releaseLock name workerPoolID,
            some (raw, .inProgress workerPoolID name, .jobs name))
      | none => redisLuaReenqueueJob store workerPoolID names

/-- Subtract what a dead pool holds of a lock and remove its entry. A lock that
becomes negative is set to zero. -/
def reapStaleLock (deadPoolID : PoolID) (store : Store) (name : String) : Store :=
  match (store.lockInfo name).get deadPoolID with
  | none => store
  | some deadLockCount =>
      let reduced := (store.incrby name (-deadLockCount)).hdel name deadPoolID
      if (reduced.lock name).getD 0 < 0 then reduced.setLock name 0 else reduced

/-- Clean up the locks of a dead pool. -/
def redisLuaReapStaleLocks (store : Store) (deadPoolID : PoolID) (names : List String) : Store :=
  names.foldl (reapStaleLock deadPoolID) store

/-- A job requeued at a time. -/
def requeuedJob (now : Int64) (job : Json) : Json :=
  Cjson.setField "t" (Cjson.toNumber now) job

/-- A job that cannot be requeued because its queue is unknown. -/
def unknownJob (now : Int64) (job : Json) : Json :=
  Cjson.setField "failed_at" (Cjson.toNumber now)
    (Cjson.setField "err" (.str "unknown job when requeueing") job)

/-- A dead job requeued at a time, with its failures cleared. -/
def revivedJob (now : Int64) (job : Json) : Json :=
  Cjson.removeField "err" (Cjson.removeField "failed_at" (Cjson.removeField "fails"
    (Cjson.setField "t" (Cjson.toNumber now) job)))

section Edits

variable (now : Int64) (lua : Json) {key : String}

theorem textField_requeuedJob (other : key ≠ "t") :
    (requeuedJob now lua).textField key = lua.textField key :=
  Cjson.textField_setField other _ _

theorem textField_unknownJob (failedAt : key ≠ "failed_at") (err : key ≠ "err") :
    (unknownJob now lua).textField key = lua.textField key := by
  rw [unknownJob, Cjson.textField_setField failedAt, Cjson.textField_setField err]

theorem textField_revivedJob (other : key ≠ "t") (fails : key ≠ "fails")
    (failedAt : key ≠ "failed_at") (err : key ≠ "err") :
    (revivedJob now lua).textField key = lua.textField key := by
  rw [revivedJob, Cjson.textField_removeField err, Cjson.textField_removeField failedAt,
    Cjson.textField_removeField fails, Cjson.textField_setField other]

theorem isUnique_requeuedJob : (requeuedJob now lua).isUnique = lua.isUnique := by
  rw [requeuedJob, Json.isUnique, Json.isUnique, Cjson.field_setField (by decide)]

theorem isUnique_unknownJob : (unknownJob now lua).isUnique = lua.isUnique := by
  rw [unknownJob, Json.isUnique, Json.isUnique, Cjson.field_setField (by decide),
    Cjson.field_setField (by decide)]

theorem isUnique_revivedJob : (revivedJob now lua).isUnique = lua.isUnique := by
  rw [revivedJob, Json.isUnique, Json.isUnique, Cjson.field_removeField (by decide),
    Cjson.field_removeField (by decide), Cjson.field_removeField (by decide),
    Cjson.field_setField (by decide)]

/-- An edit keeps everything that tells which job it is, and doubles no field. -/
structure SameIdentity (lua edited : Json) : Prop where
  id : edited.textField "id" = lua.textField "id"
  name : edited.textField "name" = lua.textField "name"
  uniqueKey : edited.textField "unique_key" = lua.textField "unique_key"
  unique : edited.isUnique = lua.isUnique
  unambiguous : lua.Unambiguous → edited.Unambiguous

theorem sameIdentity_requeuedJob : SameIdentity lua (requeuedJob now lua) where
  id := textField_requeuedJob now lua (by decide)
  name := textField_requeuedJob now lua (by decide)
  uniqueKey := textField_requeuedJob now lua (by decide)
  unique := isUnique_requeuedJob now lua
  unambiguous := fun unambiguous => Cjson.unambiguous_setField unambiguous (by decide) _

theorem sameIdentity_unknownJob : SameIdentity lua (unknownJob now lua) where
  id := textField_unknownJob now lua (by decide) (by decide)
  name := textField_unknownJob now lua (by decide) (by decide)
  uniqueKey := textField_unknownJob now lua (by decide) (by decide)
  unique := isUnique_unknownJob now lua
  unambiguous := fun unambiguous =>
    Cjson.unambiguous_setField (Cjson.unambiguous_setField unambiguous (by decide) _) (by decide) _

theorem sameIdentity_revivedJob : SameIdentity lua (revivedJob now lua) where
  id := textField_revivedJob now lua (by decide) (by decide) (by decide) (by decide)
  name := textField_revivedJob now lua (by decide) (by decide) (by decide) (by decide)
  uniqueKey := textField_revivedJob now lua (by decide) (by decide) (by decide) (by decide)
  unique := isUnique_revivedJob now lua
  unambiguous := fun unambiguous => Cjson.unambiguous_removeField (Cjson.unambiguous_removeField
    (Cjson.unambiguous_removeField (Cjson.unambiguous_setField unambiguous (by decide) _) _) _) _

theorem encodable_requeuedJob {lua : Json} (encodable : Cjson.Encodable lua) (now : Int64) :
    Cjson.Encodable (requeuedJob now lua) :=
  encodable.setField "t" (Cjson.numbersFit_toNumber now) (Cjson.depth_toNumber now)

theorem encodable_unknownJob {lua : Json} (encodable : Cjson.Encodable lua) (now : Int64) :
    Cjson.Encodable (unknownJob now lua) :=
  (encodable.setField "err" rfl (by decide)).setField "failed_at"
    (Cjson.numbersFit_toNumber now) (Cjson.depth_toNumber now)

theorem encodable_revivedJob {lua : Json} (encodable : Cjson.Encodable lua) (now : Int64) :
    Cjson.Encodable (revivedJob now lua) :=
  (((encodable.setField "t" (Cjson.numbersFit_toNumber now)
    (Cjson.depth_toNumber now)).removeField "fails").removeField "failed_at").removeField "err"

end Edits

/-- The reply of the requeuer's script. -/
inductive RequeueReply where
  | nothing
  | ok
  | dead
  | error
  deriving DecidableEq

/-- Move the first due job to its queue, or to the dead jobs if its queue is not
among the known ones. -/
def redisLuaZremLpushCmd (store : Store) (key : ZSetKey) (known : List String) (now : Int64) :
    Store × RequeueReply :=
  match ((store.zset key).upTo now.toInt).head? with
  | none => (store, .nothing)
  | some raw =>
      match Cjson.decode raw with
      | none => (store, .error)
      | some job =>
          let removed := store.zrem key raw
          match (Cjson.index "name" job).bind Cjson.concat with
          | none => (removed, .error)
          | some name =>
              if name ∈ known then
                match Cjson.encode (requeuedJob now job) with
                | some pushed => (removed.lpush (.jobs name) pushed, .ok)
                | none => (removed, .error)
              else
                match Cjson.encode (unknownJob now job) with
                | some pushed => (removed.zadd .dead now.toInt pushed, .dead)
                | none => (removed, .error)

/-- Delete the jobs with an identifier among the members with a score. The reply
counts them and has the bytes of the last one; an error has no reply. -/
def deleteLoop (key : ZSetKey) (jobID : String) :
    List RawJSON → Store → ℕ × Option RawJSON → Store × Option (ℕ × Option RawJSON)
  | [], store, deleted => (store, some deleted)
  | raw :: rest, store, deleted =>
      match (Cjson.decode raw).bind (Cjson.index "id") with
      | none => (store, none)
      | some id =>
          if id = some (.str jobID) then
            deleteLoop key jobID rest (store.zrem key raw) (deleted.1 + 1, some raw)
          else deleteLoop key jobID rest store deleted

/-- Delete a job from a sorted set. -/
def redisLuaDeleteSingleCmd (store : Store) (key : ZSetKey) (score : Int64) (jobID : String) :
    Store × Option (ℕ × Option RawJSON) :=
  deleteLoop key jobID ((store.zset key).withScore score.toInt) store (0, none)

/-- Move one dead job to its queue with its failures cleared, or keep it among the
dead jobs with a later score if its queue is unknown. The reply counts the moved
jobs. -/
def requeueDeadJob (store : Store) (known : List String) (now : Int64) (raw : RawJSON)
    (job : Json) : Store × Option ℕ :=
  let removed := store.zrem .dead raw
  match (Cjson.index "name" job).bind Cjson.concat with
  | none => (removed, none)
  | some name =>
      if name ∈ known then
        match Cjson.encode (revivedJob now job) with
        | some pushed => (removed.lpush (.jobs name) pushed, some 1)
        | none => (removed, none)
      else
        match Cjson.encode (unknownJob now job) with
        | some pushed => (removed.zadd .dead (now.toInt + 5) pushed, some 0)
        | none => (removed, none)

/-- Requeue the dead jobs of a list that a test accepts. The test may raise an error. -/
def requeueLoop (known : List String) (now : Int64) (wanted : Json → Option Bool) :
    List RawJSON → Store → ℕ → Store × Option ℕ
  | [], store, requeued => (store, some requeued)
  | raw :: rest, store, requeued =>
      match Cjson.decode raw with
      | none => (store, none)
      | some job =>
          match wanted job with
          | none => (store, none)
          | some true =>
              match store.requeueDeadJob known now raw job with
              | (next, some count) => requeueLoop known now wanted rest next (requeued + count)
              | (next, none) => (next, none)
          | some false => requeueLoop known now wanted rest store requeued

/-- Whether a decoded job has an identifier. -/
def sameID (jobID : String) (job : Json) : Option Bool :=
  (Cjson.index "id" job).map fun id => id = some (.str jobID)

/-- Requeue the dead jobs with an identifier among the members with a score. -/
def redisLuaRequeueSingleDeadCmd (store : Store) (known : List String) (now diedAt : Int64)
    (jobID : String) : Store × Option ℕ :=
  requeueLoop known now (sameID jobID) ((store.zset .dead).withScore diedAt.toInt) store 0

/-- Requeue the dead jobs up to now, a limited number of them. -/
def redisLuaRequeueAllDeadCmd (store : Store) (known : List String) (now : Int64) (limit : ℕ) :
    Store × Option ℕ :=
  requeueLoop known now (fun _ => some true) (((store.zset .dead).upTo now.toInt).take limit)
    store 0

/-- Push a unique job if its key is free, and set the key in any case. -/
def redisLuaEnqueueUnique (store : Store) (queue uniqueKey : String) (raw updated : RawJSON) :
    Store × Bool :=
  match store.unique uniqueKey with
  | none => ((store.setUnique uniqueKey (some updated)).lpush (.jobs queue) raw, true)
  | some _ => (store.setUnique uniqueKey (some updated), false)

/-- Schedule a unique job if its key is free, and set the key in any case. -/
def redisLuaEnqueueUniqueIn (store : Store) (uniqueKey : String) (raw updated : RawJSON)
    (runAt : Int64) : Store × Bool :=
  match store.unique uniqueKey with
  | none => ((store.setUnique uniqueKey (some updated)).zadd .scheduled runAt.toInt raw, true)
  | some _ => (store.setUnique uniqueKey (some updated), false)

section Cases

variable (store : Store) (pool : PoolID)

/-- A fetch finds nothing, or it takes the lock of a job and the last payload of its
queue. -/
theorem redisLuaFetchJob_cases (names : List String) :
    store.redisLuaFetchJob pool names = (store, none) ∨
      ∃ name raw rest, name ∈ names ∧ store.list (.jobs name) = rest ++ [raw] ∧
        store.paused name = false ∧ store.canRun name ∧
        store.redisLuaFetchJob pool names =
          ((store.acquireLock name pool).move (.jobs name) (.inProgress pool name) rest raw,
            some (raw, .jobs name, .inProgress pool name)) := by
  induction names with
  | nil => exact .inl rfl
  | cons name names ih =>
      by_cases runnable :
          store.list (.jobs name) ≠ [] ∧ store.paused name = false ∧ store.canRun name
      · right
        cases moved : (store.acquireLock name pool).rpoplpush (.jobs name)
            (.inProgress pool name) with
        | none =>
            have empty : (store.acquireLock name pool).list (.jobs name) = [] :=
              rpoplpush_eq_none moved
            exact (runnable.1 empty).elim
        | some pair =>
            obtain ⟨raw, next⟩ := pair
            obtain ⟨rest, split, rfl⟩ := rpoplpush_eq_some (by simp) moved
            refine ⟨name, raw, rest, List.mem_cons_self, split, runnable.2.1, runnable.2.2, ?_⟩
            rw [redisLuaFetchJob, if_pos runnable, moved]
      · rw [redisLuaFetchJob, if_neg runnable]
        rcases ih with nothing | ⟨found, raw, rest, member, taken⟩
        · exact .inl nothing
        · exact .inr ⟨found, raw, rest, List.mem_cons_of_mem _ member, taken⟩

/-- Requeueing finds every list in progress empty, or it moves the last payload of
one back and returns its lock. -/
theorem redisLuaReenqueueJob_cases (names : List String) :
    (store.redisLuaReenqueueJob pool names = (store, none) ∧
        ∀ name ∈ names, store.list (.inProgress pool name) = []) ∨
      ∃ name raw rest, name ∈ names ∧ store.list (.inProgress pool name) = rest ++ [raw] ∧
        store.redisLuaReenqueueJob pool names =
          ((store.move (.inProgress pool name) (.jobs name) rest raw).releaseLock name pool,
            some (raw, .inProgress pool name, .jobs name)) := by
  induction names with
  | nil => exact .inl ⟨rfl, fun name member => (List.not_mem_nil member).elim⟩
  | cons name names ih =>
      cases moved : store.rpoplpush (.inProgress pool name) (.jobs name) with
      | some pair =>
          obtain ⟨raw, next⟩ := pair
          obtain ⟨rest, split, rfl⟩ := rpoplpush_eq_some (by simp) moved
          refine .inr ⟨name, raw, rest, List.mem_cons_self, split, ?_⟩
          rw [redisLuaReenqueueJob, moved]
      | none =>
          rw [redisLuaReenqueueJob, moved]
          rcases ih with ⟨nothing, empty⟩ | ⟨found, raw, rest, member, taken⟩
          · refine .inl ⟨nothing, ?_⟩
            intro other member
            rcases List.mem_cons.mp member with rfl | later
            · exact rpoplpush_eq_none moved
            · exact empty other later
          · exact .inr ⟨found, raw, rest, List.mem_cons_of_mem _ member, taken⟩

/-- Reaping one lock forgets the pool on its ledger. -/
theorem ledger_reapStaleLock (name : String) :
    (reapStaleLock pool store name).ledger name = (store.ledger name).forget pool := by
  unfold reapStaleLock Ledger.forget
  cases held : (store.lockInfo name).get pool with
  | none => simp only [ledger, held]
  | some count =>
      simp only [ledger, incrby, hdel, setLock, Function.update_self, Option.getD_some, held,
        ← Int.sub_eq_add_neg]
      by_cases negative : (store.lock name).getD 0 - count < 0
      · simp only [negative, ↓reduceIte, Function.update_self, Option.getD_some]
      · simp only [negative, ↓reduceIte, Function.update_self, Option.getD_some]

/-- Reaping one lock changes only that lock and its holders. -/
theorem reapStaleLock_eq (name : String) :
    ∃ lock lockInfo, reapStaleLock pool store name =
        { store with lock := lock, lockInfo := lockInfo } ∧
      ∀ other, other ≠ name → lock other = store.lock other ∧
        lockInfo other = store.lockInfo other := by
  unfold reapStaleLock
  cases (store.lockInfo name).get pool with
  | none => exact ⟨store.lock, store.lockInfo, rfl, fun _ _ => ⟨rfl, rfl⟩⟩
  | some count =>
      by_cases negative : ((store.incrby name (-count)).hdel name pool |>.lock name).getD 0 < 0
      · refine ⟨_, _, if_pos negative, ?_⟩
        intro other different
        simp only [incrby, hdel, Function.update_of_ne different, and_self]
      · refine ⟨_, _, if_neg negative, ?_⟩
        intro other different
        simp only [incrby, Function.update_of_ne different, and_self]

/-- The clean-up of stale locks changes only locks and their holders, and forgets the
pool on the ledgers of the given names. -/
theorem redisLuaReapStaleLocks_eq (names : List String) :
    ∃ lock lockInfo, store.redisLuaReapStaleLocks pool names =
        { store with lock := lock, lockInfo := lockInfo } ∧
      ∀ name, (store.redisLuaReapStaleLocks pool names).ledger name =
        if name ∈ names then (store.ledger name).forget pool else store.ledger name := by
  induction names generalizing store with
  | nil => exact ⟨store.lock, store.lockInfo, rfl, fun name => rfl⟩
  | cons first names ih =>
      obtain ⟨lock, lockInfo, reaped, others⟩ := store.reapStaleLock_eq pool first
      obtain ⟨lock', lockInfo', rest, ledgers⟩ := ih (reapStaleLock pool store first)
      refine ⟨lock', lockInfo', ?_, ?_⟩
      · change redisLuaReapStaleLocks (reapStaleLock pool store first) pool names = _
        rw [rest, reaped]
      · intro name
        change (redisLuaReapStaleLocks (reapStaleLock pool store first) pool names).ledger name = _
        rw [ledgers name]
        by_cases same : name = first
        · subst same
          rw [ledger_reapStaleLock]
          have twice : ((store.ledger name).forget pool).forget pool =
              (store.ledger name).forget pool := by
            rw [Ledger.forget, Ledger.forget_get_self]
          split <;> simp only [twice, List.mem_cons, true_or, ↓reduceIte]
        · have untouched : (reapStaleLock pool store first).ledger name = store.ledger name := by
            rw [reaped]
            simp only [ledger, (others name same).1, (others name same).2]
          simp only [untouched, List.mem_cons, same, false_or]

/-- What holds whatever the locks are, holds after the clean-up of stale locks. -/
@[elab_as_elim]
theorem redisLuaReapStaleLocks_rec {motive : Store → Prop}
    (locks : ∀ lock lockInfo, motive { store with lock := lock, lockInfo := lockInfo })
    (names : List String) : motive (store.redisLuaReapStaleLocks pool names) := by
  obtain ⟨lock, lockInfo, same, _⟩ := store.redisLuaReapStaleLocks_eq pool names
  rw [same]
  exact locks lock lockInfo

theorem list_redisLuaReapStaleLocks (names : List String) :
    (store.redisLuaReapStaleLocks pool names).list = store.list :=
  redisLuaReapStaleLocks_rec store pool (fun _ _ => rfl) names

theorem ledger_redisLuaReapStaleLocks (names : List String) (name : String) :
    (store.redisLuaReapStaleLocks pool names).ledger name =
      if name ∈ names then (store.ledger name).forget pool else store.ledger name :=
  (store.redisLuaReapStaleLocks_eq pool names).choose_spec.choose_spec.2 name

/-- The clean-up of stale locks makes no entries, and leaves none of the pool under the
given names. -/
theorem get_redisLuaReapStaleLocks (names : List String) (name : String) (holder : PoolID) :
    ((store.redisLuaReapStaleLocks pool names).lockInfo name).get holder =
      if holder = pool ∧ name ∈ names then none else (store.lockInfo name).get holder := by
  have ledgers := store.ledger_redisLuaReapStaleLocks pool names name
  change ((store.redisLuaReapStaleLocks pool names).ledger name).held.get holder = _
  rw [ledgers]
  by_cases member : name ∈ names
  · by_cases same : holder = pool
    · subst same
      simp only [member, and_self, ↓reduceIte]
      exact Ledger.forget_get_self _ _
    · simp only [member, same, false_and, ↓reduceIte]
      exact Ledger.forget_get_of_ne _ same
  · simp only [member, and_false, ↓reduceIte]
    rfl

/-- A lock is left alone where the pool has no entry. -/
theorem lock_redisLuaReapStaleLocks_of_none (names : List String) {name : String}
    (absent : (store.lockInfo name).get pool = none) :
    (store.redisLuaReapStaleLocks pool names).lock name = store.lock name := by
  induction names generalizing store with
  | nil => rfl
  | cons first names ih =>
      change (redisLuaReapStaleLocks (reapStaleLock pool store first) pool names).lock name = _
      by_cases same : name = first
      · subst same
        have untouched : reapStaleLock pool store name = store := by rw [reapStaleLock, absent]
        rw [untouched, ih store absent]
      · obtain ⟨lock, lockInfo, reaped, others⟩ := store.reapStaleLock_eq pool first
        rw [reaped, ih]
        · exact (others name same).1
        · simp only [(others name same).2, absent]

/-- Where the pool has an entry, it is subtracted from the lock. -/
theorem lock_redisLuaReapStaleLocks_of_some {names : List String} {name : String}
    (member : name ∈ names) {count : Int} (held : (store.lockInfo name).get pool = some count) :
    (store.redisLuaReapStaleLocks pool names).lock name =
      some (max 0 ((store.lock name).getD 0 - count)) := by
  induction names generalizing store with
  | nil => cases member
  | cons first names ih =>
      change (redisLuaReapStaleLocks (reapStaleLock pool store first) pool names).lock name = _
      by_cases same : name = first
      · subst same
        rw [lock_redisLuaReapStaleLocks_of_none]
        · simp only [reapStaleLock, held, incrby, hdel, setLock, Function.update_self,
            Option.getD_some, ← Int.sub_eq_add_neg]
          split
          · next negative => simp only [Function.update_self, max_eq_left negative.le]
          · next floor => simp only [Function.update_self, max_eq_right (not_lt.mp floor)]
        · have forgotten := store.ledger_reapStaleLock pool name
          change ((reapStaleLock pool store name).ledger name).held.get pool = none
          rw [forgotten]
          exact Ledger.forget_get_self _ _
      · obtain ⟨lock, lockInfo, reaped, others⟩ := store.reapStaleLock_eq pool first
        rw [reaped, ih _ ((List.mem_cons.mp member).resolve_left same)]
        · simp only [(others name same).1]
        · simp only [(others name same).2, held]

end Cases

section ZSetCases

variable (store : Store)

/-- The ways a run of the requeuer's script can end. -/
inductive RequeueCase (key : ZSetKey) (known : List String) (now : Int64) :
    Store × RequeueReply → Prop
  | nothing : ((store.zset key).upTo now.toInt).head? = none →
      RequeueCase key known now (store, .nothing)
  | undecodable {raw : RawJSON} : ((store.zset key).upTo now.toInt).head? = some raw →
      Cjson.decode raw = none → RequeueCase key known now (store, .error)
  | nameless {raw : RawJSON} {job : Json} : ((store.zset key).upTo now.toInt).head? = some raw →
      Cjson.decode raw = some job → (Cjson.index "name" job).bind Cjson.concat = none →
      RequeueCase key known now (store.zrem key raw, .error)
  | requeued {raw pushed : RawJSON} {job : Json} {name : String} :
      ((store.zset key).upTo now.toInt).head? = some raw → Cjson.decode raw = some job →
      (Cjson.index "name" job).bind Cjson.concat = some name → name ∈ known →
      Cjson.encode (requeuedJob now job) = some pushed →
      RequeueCase key known now ((store.zrem key raw).lpush (.jobs name) pushed, .ok)
  | unpushable {raw : RawJSON} {job : Json} {name : String} :
      ((store.zset key).upTo now.toInt).head? = some raw → Cjson.decode raw = some job →
      (Cjson.index "name" job).bind Cjson.concat = some name → name ∈ known →
      Cjson.encode (requeuedJob now job) = none →
      RequeueCase key known now (store.zrem key raw, .error)
  | buried {raw pushed : RawJSON} {job : Json} {name : String} :
      ((store.zset key).upTo now.toInt).head? = some raw → Cjson.decode raw = some job →
      (Cjson.index "name" job).bind Cjson.concat = some name → name ∉ known →
      Cjson.encode (unknownJob now job) = some pushed →
      RequeueCase key known now ((store.zrem key raw).zadd .dead now.toInt pushed, .dead)
  | unburiable {raw : RawJSON} {job : Json} {name : String} :
      ((store.zset key).upTo now.toInt).head? = some raw → Cjson.decode raw = some job →
      (Cjson.index "name" job).bind Cjson.concat = some name → name ∉ known →
      Cjson.encode (unknownJob now job) = none →
      RequeueCase key known now (store.zrem key raw, .error)

theorem redisLuaZremLpushCmd_cases (key : ZSetKey) (known : List String) (now : Int64) :
    RequeueCase store key known now (store.redisLuaZremLpushCmd key known now) := by
  unfold redisLuaZremLpushCmd
  cases due : ((store.zset key).upTo now.toInt).head? with
  | none => exact .nothing due
  | some raw =>
      cases decoded : Cjson.decode raw with
      | none =>
          simp only [decoded]
          exact .undecodable due decoded
      | some job =>
          simp only [decoded]
          cases named : (Cjson.index "name" job).bind Cjson.concat with
          | none => exact .nameless due decoded named
          | some name =>
              by_cases member : name ∈ known
              · simp only [member, ↓reduceIte]
                cases encoded : Cjson.encode (requeuedJob now job) with
                | none => exact .unpushable due decoded named member encoded
                | some pushed => exact .requeued due decoded named member encoded
              · simp only [member, ↓reduceIte]
                cases encoded : Cjson.encode (unknownJob now job) with
                | none => exact .unburiable due decoded named member encoded
                | some pushed => exact .buried due decoded named member encoded

/-- The ways the requeueing of one dead job can end. -/
inductive ReviveCase (known : List String) (now : Int64) (raw : RawJSON) (job : Json) :
    Store × Option ℕ → Prop
  | nameless : (Cjson.index "name" job).bind Cjson.concat = none →
      ReviveCase known now raw job (store.zrem .dead raw, none)
  | revived {name : String} {pushed : RawJSON} :
      (Cjson.index "name" job).bind Cjson.concat = some name → name ∈ known →
      Cjson.encode (revivedJob now job) = some pushed →
      ReviveCase known now raw job ((store.zrem .dead raw).lpush (.jobs name) pushed, some 1)
  | unpushable {name : String} :
      (Cjson.index "name" job).bind Cjson.concat = some name → name ∈ known →
      Cjson.encode (revivedJob now job) = none →
      ReviveCase known now raw job (store.zrem .dead raw, none)
  | kept {name : String} {pushed : RawJSON} :
      (Cjson.index "name" job).bind Cjson.concat = some name → name ∉ known →
      Cjson.encode (unknownJob now job) = some pushed →
      ReviveCase known now raw job
        ((store.zrem .dead raw).zadd .dead (now.toInt + 5) pushed, some 0)
  | unkeepable {name : String} :
      (Cjson.index "name" job).bind Cjson.concat = some name → name ∉ known →
      Cjson.encode (unknownJob now job) = none →
      ReviveCase known now raw job (store.zrem .dead raw, none)

theorem requeueDeadJob_cases (known : List String) (now : Int64) (raw : RawJSON) (job : Json) :
    ReviveCase store known now raw job (store.requeueDeadJob known now raw job) := by
  unfold requeueDeadJob
  cases named : (Cjson.index "name" job).bind Cjson.concat with
  | none => exact .nameless named
  | some name =>
      by_cases member : name ∈ known
      · simp only [member, ↓reduceIte]
        cases encoded : Cjson.encode (revivedJob now job) with
        | none => exact .unpushable named member encoded
        | some pushed => exact .revived named member encoded
      · simp only [member, ↓reduceIte]
        cases encoded : Cjson.encode (unknownJob now job) with
        | none => exact .unkeepable named member encoded
        | some pushed => exact .kept named member encoded

/-- Some of the dead payloads of a list are requeued, one after the other. -/
inductive RequeueRun (known : List String) (now : Int64) : List RawJSON → Store → Store → Prop
  | done {raws : List RawJSON} {store : Store} : RequeueRun known now raws store store
  | skipped {raw : RawJSON} {raws : List RawJSON} {store next : Store} :
      RequeueRun known now raws store next → RequeueRun known now (raw :: raws) store next
  | requeued {raw : RawJSON} {raws : List RawJSON} {store next : Store} {lua : Json} :
      Cjson.decode raw = some lua →
      RequeueRun known now raws (store.requeueDeadJob known now raw lua).1 next →
      RequeueRun known now (raw :: raws) store next

variable {store} {known : List String} {now : Int64}

theorem requeueRun_requeueLoop (wanted : Json → Option Bool) (raws : List RawJSON) (count : ℕ) :
    RequeueRun known now raws store (requeueLoop known now wanted raws store count).1 := by
  induction raws generalizing store count with
  | nil => exact .done
  | cons raw raws ih =>
      unfold requeueLoop
      split
      · exact .done
      · next lua decoded =>
          split
          · exact .done
          · refine .requeued decoded ?_
            split
            · next next counted moved =>
                rw [moved]
                exact ih _
            · next next moved =>
                rw [moved]
                exact .done
          · exact .skipped (ih _)

/-- What the removal of members that are decoded with an identifier keeps, a deletion keeps. -/
@[elab_as_elim]
theorem deleteLoop_rec {motive : Store → Prop} {key : ZSetKey} {jobID : String}
    (removed : ∀ store raw, (Cjson.decode raw).bind (Cjson.index "id") = some (some (.str jobID)) →
      motive store → motive (store.zrem key raw))
    (raws : List RawJSON) (deleted : ℕ × Option RawJSON) (initially : motive store) :
    motive (deleteLoop key jobID raws store deleted).1 := by
  induction raws generalizing store deleted with
  | nil => exact initially
  | cons raw raws ih =>
      unfold deleteLoop
      split
      · exact initially
      · next id found =>
          split
          · next same => exact ih _ (removed store raw (same ▸ found) initially)
          · exact ih _ initially

end ZSetCases

section Frames

/-- At most the work queues and the sorted sets differ. -/
structure SameButQueues (before after : Store) : Prop where
  frame : after = { before with list := after.list, zset := after.zset }
  progress : ∀ pool name,
    after.list (.inProgress pool name) = before.list (.inProgress pool name)

namespace SameButQueues

variable {first second third : Store}

theorem refl (store : Store) : store.SameButQueues store := ⟨rfl, fun _ _ => rfl⟩

theorem trans (left : first.SameButQueues second) (right : second.SameButQueues third) :
    first.SameButQueues third := by
  refine ⟨?_, fun pool name => (right.progress pool name).trans (left.progress pool name)⟩
  rw [right.frame, left.frame]

theorem lpush (store : Store) (name : String) (raw : RawJSON) :
    store.SameButQueues (store.lpush (.jobs name) raw) := by
  refine ⟨rfl, ?_⟩
  intro pool other
  simp only [Store.lpush, ne_eq, reduceCtorEq, not_false_eq_true, Function.update_of_ne]

theorem zadd (store : Store) (key : ZSetKey) (score : Int) (raw : RawJSON) :
    store.SameButQueues (store.zadd key score raw) := ⟨rfl, fun _ _ => rfl⟩

theorem zrem (store : Store) (key : ZSetKey) (raw : RawJSON) :
    store.SameButQueues (store.zrem key raw) := ⟨rfl, fun _ _ => rfl⟩

theorem zremLpush (store : Store) (key : ZSetKey) (known : List String) (now : Int64) :
    store.SameButQueues (store.redisLuaZremLpushCmd key known now).1 := by
  have outcome := store.redisLuaZremLpushCmd_cases key known now
  generalize store.redisLuaZremLpushCmd key known now = result at outcome ⊢
  cases outcome with
  | nothing | undecodable => exact refl store
  | nameless | unpushable | unburiable => exact zrem store key _
  | requeued => exact (zrem store key _).trans (lpush _ _ _)
  | buried => exact (zrem store key _).trans (zadd _ _ _ _)

theorem requeueDeadJob (store : Store) (known : List String) (now : Int64) (raw : RawJSON)
    (job : Json) : store.SameButQueues (store.requeueDeadJob known now raw job).1 := by
  have outcome := store.requeueDeadJob_cases known now raw job
  generalize store.requeueDeadJob known now raw job = result at outcome ⊢
  cases outcome with
  | nameless | unpushable | unkeepable => exact zrem store .dead raw
  | revived => exact (zrem store .dead raw).trans (lpush _ _ _)
  | kept => exact (zrem store .dead raw).trans (zadd _ _ _ _)

theorem requeueRun {known : List String} {now : Int64} {raws : List RawJSON} {store next : Store}
    (run : RequeueRun known now raws store next) : store.SameButQueues next := by
  induction run with
  | done => exact refl _
  | skipped _ ih => exact ih
  | @requeued raw raws store next lua _ _ ih =>
      exact (requeueDeadJob store known now raw lua).trans ih

theorem deleteLoop (key : ZSetKey) (jobID : String) (raws : List RawJSON) (store : Store)
    (deleted : ℕ × Option RawJSON) :
    store.SameButQueues (Store.deleteLoop key jobID raws store deleted).1 :=
  deleteLoop_rec (fun _ raw _ same => same.trans (zrem _ key raw)) raws deleted (refl store)

end SameButQueues

end Frames

end Store
