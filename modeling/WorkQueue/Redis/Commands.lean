import WorkQueue.Foundation.Keyspace
import WorkQueue.Redis.Store

/-! # Commands on slots

The database as the server has it: a key holds nothing or a value of one type. A container that
becomes empty is removed. A command that finds a value of another type is an error, and an error
inside a script ends it. The commands are programs over any type of keys, so that they can be
run on the texts of the keys and on the keys themselves.
-/

namespace Redis

/-- A value of the database. Integers kept in strings are numbers, other strings bytes. The
hashes are those of counters and the heartbeats. -/
inductive Value where
  | list (payloads : List RawJSON)
  | zset (entries : SortedSet RawJSON)
  | set (members : Finset String)
  | number (value : Int)
  | bytes (payload : RawJSON)
  | counters (fields : FinMap String Int)
  | heartbeat (fields : Heartbeat)

/-- What a key holds. -/
abbrev Slot := Option Value

/-- A program over the database. -/
abbrev Script (Key : Type) := Program Key Slot

namespace Slot

/-- The slot as a list; a missing key is the empty list. -/
def asList : Slot → Option (List RawJSON)
  | none => some []
  | some (.list payloads) => some payloads
  | _ => none

def ofList (payloads : List RawJSON) : Slot :=
  if payloads = [] then none else some (.list payloads)

/-- The slot as a sorted set. -/
def asZSet : Slot → Option (SortedSet RawJSON)
  | none => some .empty
  | some (.zset entries) => some entries
  | _ => none

def ofZSet (entries : SortedSet RawJSON) : Slot :=
  if entries.entries = [] then none else some (.zset entries)

/-- The slot as a set. -/
def asSet : Slot → Option (Finset String)
  | none => some ∅
  | some (.set members) => some members
  | _ => none

def ofSet (members : Finset String) : Slot := if members = ∅ then none else some (.set members)

/-- The slot as a hash of counters. -/
def asCounters : Slot → Option (FinMap String Int)
  | none => some .empty
  | some (.counters fields) => some fields
  | _ => none

def ofCounters (fields : FinMap String Int) : Slot :=
  if fields.support = ∅ then none else some (.counters fields)

/-- The slot as a string. -/
def asString : Slot → Option (Option Value)
  | none => some none
  | some (.number value) => some (some (.number value))
  | some (.bytes payload) => some (some (.bytes payload))
  | _ => none

/-- The slot as a string with an integer, if it is not missing. -/
def asNumber : Slot → Option (Option Int)
  | none => some none
  | some (.number value) => some (some value)
  | _ => none

/-- The slot as a string with a payload, if it is not missing. -/
def asBytes : Slot → Option (Option RawJSON)
  | none => some none
  | some (.bytes payload) => some (some payload)
  | _ => none

/-- The slot as a heartbeat, if it is not missing. -/
def asHeartbeat : Slot → Option (Option Heartbeat)
  | none => some none
  | some (.heartbeat fields) => some (some fields)
  | _ => none

@[simp] theorem asList_ofList (payloads : List RawJSON) :
    asList (ofList payloads) = some payloads := by
  unfold ofList
  split
  · next empty => rw [empty]; rfl
  · rfl

@[simp] theorem asZSet_ofZSet (entries : SortedSet RawJSON) :
    asZSet (ofZSet entries) = some entries := by
  unfold ofZSet
  split
  · next empty =>
      obtain ⟨listed, sorted, nodup⟩ := entries
      obtain rfl : listed = [] := empty
      rfl
  · rfl

@[simp] theorem asSet_ofSet (members : Finset String) : asSet (ofSet members) = some members := by
  unfold ofSet
  split
  · next empty => rw [empty]; rfl
  · rfl

@[simp] theorem asCounters_ofCounters (fields : FinMap String Int) :
    asCounters (ofCounters fields) = some fields := by
  unfold ofCounters
  split
  · next empty =>
      refine congrArg some (FinMap.eq_of_get fun key => ?_)
      have absent : key ∉ fields.support := by
        rw [empty]
        exact Finset.notMem_empty key
      rw [FinMap.get_empty, fields.get_eq_none_of_notMem absent]
  · rfl

@[simp] theorem asString_number (value : Option Int) :
    asString (value.map .number) = some (value.map .number) := by
  cases value <;> rfl

@[simp] theorem asNumber_number (value : Option Int) :
    asNumber (value.map .number) = some value := by
  cases value <;> rfl

@[simp] theorem asBytes_bytes (value : Option RawJSON) :
    asBytes (value.map .bytes) = some value := by
  cases value <;> rfl

@[simp] theorem asHeartbeat_heartbeat (value : Option Heartbeat) :
    asHeartbeat (value.map .heartbeat) = some value := by
  cases value <;> rfl

end Slot

open Slot

variable {Key View : Type}

/-- Read a slot as a value of some type. -/
def fetch (view : Slot → Option View) (key : Key) : Script Key View :=
  .read key fun slot =>
    match view slot with
    | some value => pure value
    | none => .fail

/-- Replace a slot. -/
def put (key : Key) (slot : Slot) : Script Key Unit := .write key slot (pure ())

def llen (key : Key) : Script Key ℕ := do
  let payloads ← fetch asList key
  return payloads.length

def lpush (key : Key) (payload : RawJSON) : Script Key Unit := do
  let payloads ← fetch asList key
  put key (ofList (payload :: payloads))

/-- Both lists are looked at before one is changed. -/
def rpoplpush (source target : Key) : Script Key (Option RawJSON) := do
  let payloads ← fetch asList source
  match payloads.getLast? with
  | none => return none
  | some payload =>
      let _ ← fetch asList target
      put source (ofList payloads.dropLast)
      lpush target payload
      return some payload

/-- Remove the leftmost occurrence. -/
def lrem (key : Key) (payload : RawJSON) : Script Key Unit := do
  let payloads ← fetch asList key
  put key (ofList (payloads.erase payload))

/-- A string, whatever it holds. -/
def get (key : Key) : Script Key (Option Value) := fetch asString key

/-- The payload kept in a string. -/
def getBytes (key : Key) : Script Key (Option RawJSON) := fetch asBytes key

/-- The number that a string reads as. -/
def tonumber : Option Value → Option Int
  | some (.number value) => some value
  | _ => none

def setNumber (key : Key) (value : Int) : Script Key Unit := put key (some (.number value))

def setBytes (key : Key) (payload : RawJSON) : Script Key Unit := put key (some (.bytes payload))

/-- Set a string if the key is missing. -/
def setNX (key : Key) (payload : RawJSON) : Script Key Bool :=
  .read key fun slot =>
    match slot with
    | none => do
        setBytes key payload
        return true
    | some _ => return false

def del (key : Key) : Script Key Unit := put key none

def incrby (key : Key) (amount : Int) : Script Key Unit := do
  let value ← fetch asNumber key
  setNumber key (value.getD 0 + amount)

def hincrby (key : Key) (field : String) (amount : Int) : Script Key Unit := do
  let fields ← fetch asCounters key
  put key (ofCounters (fields.set field (fields.amount field + amount)))

def hget (key : Key) (field : String) : Script Key (Option Int) := do
  let fields ← fetch asCounters key
  return fields.get field

def hdel (key : Key) (field : String) : Script Key Unit := do
  let fields ← fetch asCounters key
  put key (ofCounters (fields.erase field))

def zadd (key : Key) (score : Int) (payload : RawJSON) : Script Key Unit := do
  let entries ← fetch asZSet key
  put key (ofZSet (entries.add score payload))

def zrem (key : Key) (payload : RawJSON) : Script Key Unit := do
  let entries ← fetch asZSet key
  put key (ofZSet (entries.erase payload))

/-- The members with a score of at most a bound. -/
def zrangeUpTo (key : Key) (bound : Int) : Script Key (List RawJSON) := do
  let entries ← fetch asZSet key
  return entries.upTo bound

/-- The members with a score. -/
def zrangeAt (key : Key) (score : Int) : Script Key (List RawJSON) := do
  let entries ← fetch asZSet key
  return entries.withScore score

def sadd (key : Key) (members : List String) : Script Key Unit := do
  let present ← fetch asSet key
  put key (ofSet (present ∪ members.toFinset))

def srem (key : Key) (member : String) : Script Key Unit := do
  let present ← fetch asSet key
  put key (ofSet (present.erase member))

def smembers (key : Key) : Script Key (Finset String) := fetch asSet key

def hmset (key : Key) (fields : Heartbeat) : Script Key Unit := do
  let _ ← fetch asHeartbeat key
  put key (some (.heartbeat fields))

/-- The time in a heartbeat. -/
def hgetHeartbeatAt (key : Key) : Script Key (Option Int64) := do
  let fields ← fetch asHeartbeat key
  return fields.map Heartbeat.heartbeatAt

/-- The job names in a heartbeat. -/
def hgetJobNames (key : Key) : Script Key (Option String) := do
  let fields ← fetch asHeartbeat key
  return fields.map Heartbeat.jobNames

/-- The commands of a transaction are executed one after the other even if one of them fails. -/
def transaction : List (Script Key Unit) → Script Key Unit
  | [] => return ()
  | command :: commands => do
      let _ ← command.attempt
      transaction commands

section Running

variable [DecidableEq Key] {slots : Key → Slot} {key : Key}

@[simp] theorem run_put (slot : Slot) :
    (put key slot).run slots = (Function.update slots key slot, some ()) := rfl

theorem run_fetch {view : Slot → Option View} {value : View}
    (holds : view (slots key) = some value) :
    (fetch view key).run slots = (slots, some value) := by
  rw [fetch, Program.run_read, holds]
  rfl

theorem run_fetch_bind {Result : Type} {view : Slot → Option View} {value : View}
    (holds : view (slots key) = some value) (next : View → Script Key Result) :
    (fetch view key >>= next).run slots = (next value).run slots := by
  rw [Program.run_bind, run_fetch holds]

/-- A transaction whose first command succeeds. -/
theorem run_transaction_cons {command : Script Key Unit} {commands : List (Script Key Unit)}
    {after : Key → Slot} (ran : command.run slots = (after, some ())) :
    (transaction (command :: commands)).run slots = (transaction commands).run after := by
  have attempted : command.attempt.run slots = (after, some (some ())) := by
    rw [Program.run_attempt, ran]
  rw [transaction, Program.run_bind_of_some attempted]

theorem run_put_bind {Result : Type} (slot : Slot) (next : Unit → Script Key Result) :
    (put key slot >>= next).run slots = (next ()).run (Function.update slots key slot) := by
  rw [Program.run_bind, run_put]

end Running

section Naming

open Program

variable {Name : Type} {named : Key → Name → Prop} {key source target : Key}
  {name source' target' : Name}

theorem mirrors_fetch (names : named key name) (view : Slot → Option View) :
    Mirrors named Eq (fetch view key) (fetch view name) := by
  refine .read names fun slot => ?_
  cases view slot with
  | none => exact .fail
  | some value => exact .pure rfl

theorem mirrors_put (names : named key name) (slot : Slot) :
    Mirrors named Eq (put key slot) (put name slot) := .write names (.pure rfl)

/-- A command that replaces the value it reads. -/
theorem mirrors_update (names : named key name) (view : Slot → Option View)
    (change : View → Slot) :
    Mirrors named Eq (fetch view key >>= fun value => put key (change value))
      (fetch view name >>= fun value => put name (change value)) := by
  refine (mirrors_fetch names view).bind ?_
  rintro value _ rfl
  exact mirrors_put names _

/-- A command that answers with what it reads. -/
theorem mirrors_query {Result : Type} (names : named key name) (view : Slot → Option View)
    (answer : View → Result) :
    Mirrors named Eq (fetch view key >>= fun value => pure (answer value))
      (fetch view name >>= fun value => pure (answer value)) := by
  refine (mirrors_fetch names view).bind ?_
  rintro value _ rfl
  exact .pure rfl

theorem mirrors_llen (names : named key name) : Mirrors named Eq (llen key) (llen name) :=
  mirrors_query names asList _

theorem mirrors_lpush (names : named key name) (payload : RawJSON) :
    Mirrors named Eq (lpush key payload) (lpush name payload) := mirrors_update names asList _

theorem mirrors_rpoplpush (sources : named source source') (targets : named target target') :
    Mirrors named Eq (rpoplpush source target) (rpoplpush source' target') := by
  refine (mirrors_fetch sources asList).bind ?_
  rintro payloads _ rfl
  cases payloads.getLast? with
  | none => exact .pure rfl
  | some payload =>
      refine (mirrors_fetch targets asList).bind fun _ _ _ => ?_
      refine (mirrors_put sources _).bind fun _ _ _ => ?_
      exact (mirrors_lpush targets payload).bind fun _ _ _ => .pure rfl

theorem mirrors_lrem (names : named key name) (payload : RawJSON) :
    Mirrors named Eq (lrem key payload) (lrem name payload) := mirrors_update names asList _

theorem mirrors_get (names : named key name) : Mirrors named Eq (get key) (get name) :=
  mirrors_fetch names asString

theorem mirrors_getBytes (names : named key name) :
    Mirrors named Eq (getBytes key) (getBytes name) := mirrors_fetch names asBytes

theorem mirrors_setNumber (names : named key name) (value : Int) :
    Mirrors named Eq (setNumber key value) (setNumber name value) := mirrors_put names _

theorem mirrors_setBytes (names : named key name) (payload : RawJSON) :
    Mirrors named Eq (setBytes key payload) (setBytes name payload) := mirrors_put names _

theorem mirrors_setNX (names : named key name) (payload : RawJSON) :
    Mirrors named Eq (setNX key payload) (setNX name payload) := by
  refine .read names fun slot => ?_
  cases slot with
  | none => exact (mirrors_setBytes names payload).bind fun _ _ _ => .pure rfl
  | some value => exact .pure rfl

theorem mirrors_del (names : named key name) : Mirrors named Eq (del key) (del name) :=
  mirrors_put names _

theorem mirrors_incrby (names : named key name) (amount : Int) :
    Mirrors named Eq (incrby key amount) (incrby name amount) := mirrors_update names asNumber _

theorem mirrors_hincrby (names : named key name) (field : String) (amount : Int) :
    Mirrors named Eq (hincrby key field amount) (hincrby name field amount) :=
  mirrors_update names asCounters _

theorem mirrors_hget (names : named key name) (field : String) :
    Mirrors named Eq (hget key field) (hget name field) := mirrors_query names asCounters _

theorem mirrors_hdel (names : named key name) (field : String) :
    Mirrors named Eq (hdel key field) (hdel name field) := mirrors_update names asCounters _

theorem mirrors_zadd (names : named key name) (score : Int) (payload : RawJSON) :
    Mirrors named Eq (zadd key score payload) (zadd name score payload) :=
  mirrors_update names asZSet _

theorem mirrors_zrem (names : named key name) (payload : RawJSON) :
    Mirrors named Eq (zrem key payload) (zrem name payload) := mirrors_update names asZSet _

theorem mirrors_zrangeUpTo (names : named key name) (bound : Int) :
    Mirrors named Eq (zrangeUpTo key bound) (zrangeUpTo name bound) :=
  mirrors_query names asZSet _

theorem mirrors_zrangeAt (names : named key name) (score : Int) :
    Mirrors named Eq (zrangeAt key score) (zrangeAt name score) := mirrors_query names asZSet _

theorem mirrors_sadd (names : named key name) (members : List String) :
    Mirrors named Eq (sadd key members) (sadd name members) := mirrors_update names asSet _

theorem mirrors_srem (names : named key name) (member : String) :
    Mirrors named Eq (srem key member) (srem name member) := mirrors_update names asSet _

theorem mirrors_smembers (names : named key name) :
    Mirrors named Eq (smembers key) (smembers name) := mirrors_fetch names asSet

theorem mirrors_hmset (names : named key name) (fields : Heartbeat) :
    Mirrors named Eq (hmset key fields) (hmset name fields) := mirrors_update names asHeartbeat _

theorem mirrors_hgetHeartbeatAt (names : named key name) :
    Mirrors named Eq (hgetHeartbeatAt key) (hgetHeartbeatAt name) :=
  mirrors_query names asHeartbeat _

theorem mirrors_hgetJobNames (names : named key name) :
    Mirrors named Eq (hgetJobNames key) (hgetJobNames name) := mirrors_query names asHeartbeat _

theorem mirrors_transaction {commands : List (Script Key Unit)}
    {commands' : List (Script Name Unit)}
    (listed : List.Forall₂ (Mirrors named Eq) commands commands') :
    Mirrors named Eq (transaction commands) (transaction commands') := by
  induction listed with
  | nil => exact .pure rfl
  | cons first _ ih => exact first.attempt.bind fun _ _ _ => ih

end Naming

end Redis
