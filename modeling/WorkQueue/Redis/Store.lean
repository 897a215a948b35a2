import WorkQueue.Foundation.Ledger
import WorkQueue.Foundation.SortedSet
import WorkQueue.Payload.Job

/-! # The keyspace and its commands

The part of the Redis keyspace that one namespace uses, and the commands that read
and write it. A list is written from its left end, so pushing conses and popping
from the right takes the last element. The lock of a job name and the hash of its
holders form a ledger (`Store.ledger`): the paired increments and decrements of the
scripts are the operations of the ledger.
-/

/-- The hash a worker pool writes to show that it is alive. -/
structure Heartbeat where
  heartbeatAt : Int64
  startedAt : Int64
  jobNames : String
  concurrency : ℕ
  workerIDs : String
  host : String
  pid : ℕ
  deriving DecidableEq

/-- The keys of one namespace. -/
structure Store where
  list : ListKey → List RawJSON
  zset : ZSetKey → SortedSet RawJSON
  paused : String → Bool
  lock : String → Option Int
  lockInfo : String → FinMap PoolID Int
  maxConcurrency : String → Option ℕ
  unique : String → Option RawJSON
  knownJobs : Finset String
  workerPools : Finset PoolID
  heartbeat : PoolID → Option Heartbeat

/-- Two stores that differ at most in the order of their lists. -/
structure Store.SameUpToOrder (first second : Store) : Prop where
  frame : second = { first with list := second.list, zset := second.zset }
  lists : ∀ key, (first.list key).Perm (second.list key)
  zsets : ∀ key entry, entry ∈ (first.zset key).entries ↔ entry ∈ (second.zset key).entries

namespace Store

/-- The ledger made of a lock and the hash of its holders. An absent lock counts
as zero. -/
def ledger (store : Store) (name : String) : Ledger PoolID where
  count := (store.lock name).getD 0
  held := store.lockInfo name

/-- Push to the left end of a list. -/
def lpush (store : Store) (key : ListKey) (raw : RawJSON) : Store :=
  { store with list := Function.update store.list key (raw :: store.list key) }

/-- Move the right end of a list to the left end of another. -/
def rpoplpush (store : Store) (source target : ListKey) : Option (RawJSON × Store) :=
  (store.list source).getLast?.map fun raw =>
    (raw, { store with list := Function.update store.list source (store.list source).dropLast }
      |>.lpush target raw)

/-- Give a list its remaining elements and put the one taken from it before another list. -/
def move (store : Store) (source target : ListKey) (rest : List RawJSON) (raw : RawJSON) : Store :=
  { store with
    list := Function.update (Function.update store.list source rest) target
      (raw :: store.list target) }

/-- Remove the leftmost occurrence of an element. -/
def lrem (store : Store) (key : ListKey) (raw : RawJSON) : Store :=
  { store with list := Function.update store.list key ((store.list key).erase raw) }

/-- Add a member to a sorted set or change its score. -/
def zadd (store : Store) (key : ZSetKey) (score : Int) (raw : RawJSON) : Store :=
  { store with zset := Function.update store.zset key ((store.zset key).add score raw) }

/-- Remove a member of a sorted set. -/
def zrem (store : Store) (key : ZSetKey) (raw : RawJSON) : Store :=
  { store with zset := Function.update store.zset key ((store.zset key).erase raw) }

/-- Add to a lock. -/
def incrby (store : Store) (name : String) (amount : Int) : Store :=
  { store with lock := Function.update store.lock name (some ((store.lock name).getD 0 + amount)) }

/-- Add to the entry of a pool in the holders of a lock. -/
def hincrby (store : Store) (name : String) (pool : PoolID) (amount : Int) : Store :=
  { store with
    lockInfo := Function.update store.lockInfo name
      ((store.lockInfo name).set pool ((store.lockInfo name).amount pool + amount)) }

/-- Remove the entry of a pool from the holders of a lock. -/
def hdel (store : Store) (name : String) (pool : PoolID) : Store :=
  { store with
    lockInfo := Function.update store.lockInfo name ((store.lockInfo name).erase pool) }

/-- Set a lock. -/
def setLock (store : Store) (name : String) (value : Int) : Store :=
  { store with lock := Function.update store.lock name (some value) }

/-- Set or remove a unique key. -/
def setUnique (store : Store) (key : String) (value : Option RawJSON) : Store :=
  { store with unique := Function.update store.unique key value }

theorem SameUpToOrder.symm {first second : Store} (same : first.SameUpToOrder second) :
    second.SameUpToOrder first := by
  refine ⟨?_, fun key => (same.lists key).symm, fun key entry => (same.zsets key entry).symm⟩
  rw [same.frame]

theorem SameUpToOrder.trans {first second third : Store} (left : first.SameUpToOrder second)
    (right : second.SameUpToOrder third) : first.SameUpToOrder third := by
  refine ⟨?_, fun key => (left.lists key).trans (right.lists key),
    fun key entry => (left.zsets key entry).trans (right.zsets key entry)⟩
  rw [right.frame, left.frame]

/-- Take a lock for a pool. -/
def acquireLock (store : Store) (name : String) (pool : PoolID) : Store :=
  (store.incrby name 1).hincrby name pool 1

/-- Return a lock taken by a pool. -/
def releaseLock (store : Store) (name : String) (pool : PoolID) : Store :=
  (store.incrby name (-1)).hincrby name pool (-1)

section Ledger

variable (store : Store) (name : String) (pool : PoolID)

theorem ledger_acquireLock :
    (store.acquireLock name pool).ledger name = (store.ledger name).acquire pool := by
  simp only [ledger, acquireLock, incrby, hincrby, Function.update_self, Option.getD_some,
    Ledger.acquire]

theorem ledger_acquireLock_of_ne {other : String} (different : other ≠ name) :
    (store.acquireLock name pool).ledger other = store.ledger other := by
  simp only [ledger, acquireLock, incrby, hincrby, Function.update_of_ne different]

theorem ledger_releaseLock :
    (store.releaseLock name pool).ledger name = (store.ledger name).release pool := by
  simp only [ledger, releaseLock, incrby, hincrby, Function.update_self, Option.getD_some,
    Ledger.release, Int.sub_eq_add_neg]

theorem ledger_releaseLock_of_ne {other : String} (different : other ≠ name) :
    (store.releaseLock name pool).ledger other = store.ledger other := by
  simp only [ledger, releaseLock, incrby, hincrby, Function.update_of_ne different]

variable {store name pool} {other : String} {holder : PoolID}

/-- Taking a lock leaves every other entry alone. -/
theorem get_acquireLock_of_ne (different : ¬ (holder = pool ∧ other = name)) :
    ((store.acquireLock name pool).lockInfo other).get holder =
      (store.lockInfo other).get holder := by
  by_cases same : other = name
  · subst same
    simp only [acquireLock, incrby, hincrby, Function.update_self]
    exact FinMap.get_set_of_ne _ _ fun equal => different ⟨equal, rfl⟩
  · simp only [acquireLock, incrby, hincrby, Function.update_of_ne same]

/-- Returning a lock leaves every other entry alone. -/
theorem get_releaseLock_of_ne (different : ¬ (holder = pool ∧ other = name)) :
    ((store.releaseLock name pool).lockInfo other).get holder =
      (store.lockInfo other).get holder := by
  by_cases same : other = name
  · subst same
    simp only [releaseLock, incrby, hincrby, Function.update_self]
    exact FinMap.get_set_of_ne _ _ fun equal => different ⟨equal, rfl⟩
  · simp only [releaseLock, incrby, hincrby, Function.update_of_ne same]

end Ledger

section SetsAndKeys

variable (store : Store)

theorem unique_setUnique_self (key : String) (value : Option RawJSON) :
    (store.setUnique key value).unique key = value := Function.update_self ..

theorem unique_setUnique_of_ne {key other : String} (different : other ≠ key)
    (value : Option RawJSON) : (store.setUnique key value).unique other = store.unique other :=
  Function.update_of_ne different ..

theorem zset_zadd_self (key : ZSetKey) (score : Int) (raw : RawJSON) :
    (store.zadd key score raw).zset key = (store.zset key).add score raw :=
  Function.update_self ..

theorem zset_zadd_of_ne {key other : ZSetKey} (different : other ≠ key) (score : Int)
    (raw : RawJSON) : (store.zadd key score raw).zset other = store.zset other :=
  Function.update_of_ne different ..

theorem zset_zrem_self (key : ZSetKey) (raw : RawJSON) :
    (store.zrem key raw).zset key = (store.zset key).erase raw := Function.update_self ..

theorem zset_zrem_of_ne {key other : ZSetKey} (different : other ≠ key) (raw : RawJSON) :
    (store.zrem key raw).zset other = store.zset other := Function.update_of_ne different ..

end SetsAndKeys

section Lists

variable {store next : Store} {source target key : ListKey} {raw : RawJSON}
  {rest : List RawJSON}

theorem list_lpush_self : (store.lpush key raw).list key = raw :: store.list key :=
  Function.update_self ..

theorem list_lpush_of_ne {other : ListKey} (different : other ≠ key) :
    (store.lpush key raw).list other = store.list other := Function.update_of_ne different ..

theorem list_lrem_self : (store.lrem key raw).list key = (store.list key).erase raw :=
  Function.update_self ..

theorem list_lrem_of_ne {other : ListKey} (different : other ≠ key) :
    (store.lrem key raw).list other = store.list other := Function.update_of_ne different ..

/-- Moving an element pushes it after the source has its remaining elements. -/
theorem move_eq_lpush (different : source ≠ target) : store.move source target rest raw =
    ({ store with list := Function.update store.list source rest } : Store).lpush target raw := by
  simp only [move, lpush, Function.update_of_ne different.symm]

theorem list_move_target : (store.move source target rest raw).list target =
    raw :: store.list target := Function.update_self ..

theorem list_move_source (different : source ≠ target) :
    (store.move source target rest raw).list source = rest := by
  simp only [move, Function.update_of_ne different, Function.update_self]

theorem list_move_of_ne (notSource : key ≠ source) (notTarget : key ≠ target) :
    (store.move source target rest raw).list key = store.list key := by
  simp only [move, Function.update_of_ne notTarget, Function.update_of_ne notSource]

@[simp] theorem list_acquireLock (name : String) (pool : PoolID) :
    (store.acquireLock name pool).list = store.list := rfl

@[simp] theorem list_releaseLock (name : String) (pool : PoolID) :
    (store.releaseLock name pool).list = store.list := rfl

/-- Moving an element takes the last of one list and puts it before another. -/
theorem rpoplpush_eq_some (different : source ≠ target)
    (moved : store.rpoplpush source target = some (raw, next)) :
    ∃ rest, store.list source = rest ++ [raw] ∧ next = store.move source target rest raw := by
  obtain ⟨last, found, same⟩ := Option.map_eq_some_iff.mp moved
  obtain ⟨rfl, rfl⟩ := Prod.mk.inj same
  obtain ⟨rest, split⟩ := List.getLast?_eq_some_iff.mp found
  refine ⟨rest, split, ?_⟩
  simp only [lpush, move, split, List.dropLast_concat, Function.update_of_ne different.symm]

theorem rpoplpush_eq_none (nothing : store.rpoplpush source target = none) :
    store.list source = [] := by
  rw [rpoplpush, Option.map_eq_none_iff, List.getLast?_eq_none_iff] at nothing
  exact nothing

end Lists

end Store
