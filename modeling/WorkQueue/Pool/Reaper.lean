import WorkQueue.Pool.Worker

/-! # Heartbeats and the reaper of dead pools

A pool that is alive writes a heartbeat with its job names joined by commas. The
reaper reads all heartbeats, takes a pool with an old or a missing one for dead, and
then requeues the jobs that pool has in progress, removes the pool and cleans up
its locks, one command at a time. What a step of the reaper can do is said once by
`Reaper.step_cases`.
-/

/-- Join names with commas. -/
def joinNames (names : List String) : String :=
  String.ofList ([','].intercalate (names.map String.toList))

/-- Split at commas. -/
def splitNames (names : String) : List String := (names.toList.splitOn ',').map String.ofList

/-- Names in ascending order. -/
def sortNames (names : List String) : List String :=
  names.insertionSort fun first second => first.toList ≤ second.toList

/-- A name without a comma among joined names is found by splitting them, whatever the
other names are. -/
theorem mem_splitNames_joinNames {names : List String} {name : String} (member : name ∈ names)
    (plain : ',' ∉ name.toList) : name ∈ splitNames (joinNames names) := by
  have alone : (name.toList).splitOn ',' = [name.toList] := by
    have single : ([','].intercalate [name.toList]).splitOn ',' = [name.toList] :=
      List.splitOn_intercalate ',' (by simpa using plain) (by simp)
    simpa using single
  have found : name.toList ∈ ([','].intercalate (names.map String.toList)).splitOn ',' := by
    induction names with
    | nil => exact (List.not_mem_nil member).elim
    | cons first rest ih =>
        cases rest with
        | nil =>
            obtain rfl := List.mem_singleton.mp member
            simp [alone]
        | cons second rest =>
            rw [List.map_cons, List.map_cons, List.intercalate_cons_cons, List.append_assoc,
              List.singleton_append, List.splitOn_append_cons_self, List.mem_append]
            rcases List.mem_cons.mp member with rfl | later
            · exact .inl (by rw [alone]; exact List.mem_singleton_self _)
            · exact .inr (ih later)
  rw [splitNames, joinNames, String.toList_ofList]
  exact List.mem_map.mpr ⟨_, found, String.ofList_toList⟩

/-- The heartbeat that a pool writes. -/
def PoolConfig.heartbeat (config : PoolConfig) (startedAt now : Int64) : Heartbeat where
  heartbeatAt := now
  startedAt := startedAt
  jobNames := joinNames (sortNames config.names)
  concurrency := config.concurrency
  workerIDs := joinNames (sortNames config.workerIDs)
  host := config.host
  pid := config.pid

/-- The heartbeat of a pool lists its job names without commas. -/
theorem PoolConfig.mem_heartbeat {config : PoolConfig} {name : String}
    (registered : name ∈ config.names) (plain : ',' ∉ name.toList) (startedAt now : Int64) :
    name ∈ splitNames (config.heartbeat startedAt now).jobNames :=
  mem_splitNames_joinNames ((List.perm_insertionSort _ _).mem_iff.mpr registered) plain

/-- Seconds without a heartbeat after which a pool is taken for dead. -/
def deadTime : Int := 10

namespace Reaper

/-- The states of a reaper: waiting, reading the heartbeats of the remaining pools,
reading the job names of a dead one, and the four commands for each dead pool. -/
inductive State where
  | idle
  | scanning (todo : List PoolID) (found : List (PoolID × List String))
  | reading (pool : PoolID) (todo : List PoolID) (found : List (PoolID × List String))
  | requeueing (pool : PoolID) (jobTypes : List String) (todo : List (PoolID × List String))
  | deleting (pool : PoolID) (jobTypes : List String) (todo : List (PoolID × List String))
  | removing (pool : PoolID) (lockJobTypes : List String) (todo : List (PoolID × List String))
  | cleaning (pool : PoolID) (lockJobTypes : List String) (todo : List (PoolID × List String))
  deriving DecidableEq

/-- The steps of a reaper. The members of the set of pools and the entries of the map
of dead pools come in any order. -/
inductive Event where
  | members (order : List PoolID) (reply : Reply)
  | heartbeatAt (now : Int64) (reply : Reply)
  | jobNames (reply : Reply)
  | reap (order : List (PoolID × List String))
  | requeue (reply : Reply)
  | delete (reply : Reply)
  | remove (reply : Reply)
  | clean (reply : Reply)
  deriving DecidableEq

/-- The reply that the command of a step gets. -/
def Event.reply : Event → Reply
  | .members _ reply | .heartbeatAt _ reply | .jobNames reply | .requeue reply | .delete reply
  | .remove reply | .clean reply => reply
  | .reap _ => .ok

/-- Turn to the next dead pool. One without a heartbeat has nothing to requeue, and
its locks are cleaned up for the reaper's own job types. -/
def proceed (curJobTypes : List String) : List (PoolID × List String) → State
  | [] => .idle
  | (pool, jobTypes) :: todo =>
      if jobTypes ≠ [] then .requeueing pool jobTypes todo else .removing pool curJobTypes todo

/-- Remove the heartbeat of a pool. -/
def delHeartbeat (redis : Store) (pool : PoolID) : Store :=
  { redis with heartbeat := Function.update redis.heartbeat pool none }

/-- Remove a pool from the set of pools. -/
def sremPool (redis : Store) (pool : PoolID) : Store :=
  { redis with workerPools := redis.workerPools.erase pool }

/-- One step of a reaper. Every error ends the round. -/
def step (curJobTypes : List String) (redis : Store) : State → Event → Option (Store × State)
  | .idle, .members order reply =>
      if order.Nodup ∧ order.toFinset = redis.workerPools then
        some (redis, if reply = .ok then .scanning order [] else .idle)
      else none
  | .scanning (pool :: todo) found, .heartbeatAt now reply =>
      match (reply.deliver redis (redis, redis.heartbeat pool)).2 with
      | none => some (redis, .idle)
      | some none => some (redis, .scanning todo (found ++ [(pool, [])]))
      | some (some heartbeat) =>
          if heartbeat.heartbeatAt.toInt + deadTime > now.toInt then
            some (redis, .scanning todo found)
          else some (redis, .reading pool todo found)
  | .reading pool todo found, .jobNames reply =>
      match (reply.deliver redis (redis, redis.heartbeat pool)).2 with
      | none => some (redis, .idle)
      | some none => some (redis, .scanning todo found)
      | some (some heartbeat) =>
          some (redis, .scanning todo (found ++ [(pool, splitNames heartbeat.jobNames)]))
  | .scanning [] found, .reap order =>
      if order.Perm found then some (redis, proceed curJobTypes order) else none
  | .requeueing pool jobTypes todo, .requeue reply =>
      let (next, answer) := reply.deliver redis (redis.redisLuaReenqueueJob pool jobTypes)
      match answer with
      | some (some _) => some (next, .requeueing pool jobTypes todo)
      | some none => some (next, .deleting pool jobTypes todo)
      | none => some (next, .idle)
  | .deleting pool jobTypes todo, .delete reply =>
      let (next, answer) := reply.deliver redis (delHeartbeat redis pool, ())
      some (next, if answer = none then .idle else .removing pool jobTypes todo)
  | .removing pool lockJobTypes todo, .remove reply =>
      let (next, answer) := reply.deliver redis (sremPool redis pool, ())
      some (next, if answer = none then .idle else .cleaning pool lockJobTypes todo)
  | .cleaning pool lockJobTypes todo, .clean reply =>
      let (next, answer) :=
        reply.deliver redis (redis.redisLuaReapStaleLocks pool lockJobTypes, ())
      some (next, if answer = none then .idle else proceed curJobTypes todo)
  | _, _ => none

/-- What a step of a reaper can do. A command that errs ends the round, whether it
was executed or not. -/
inductive Case (curJobTypes : List String) (redis : Store) :
    State → Event → Store → State → Prop
  | listed {order : List PoolID} : order.toFinset = redis.workerPools → order.Nodup →
      Case curJobTypes redis .idle (.members order .ok) redis (.scanning order [])
  | expired {pool : PoolID} {todo : List PoolID} {found : List (PoolID × List String)}
      {now : Int64} : redis.heartbeat pool = none →
      Case curJobTypes redis (.scanning (pool :: todo) found) (.heartbeatAt now .ok) redis
        (.scanning todo (found ++ [(pool, [])]))
  | alive {pool : PoolID} {todo : List PoolID} {found : List (PoolID × List String)}
      {now : Int64} {heartbeat : Heartbeat} :
      redis.heartbeat pool = some heartbeat →
      heartbeat.heartbeatAt.toInt + deadTime > now.toInt →
      Case curJobTypes redis (.scanning (pool :: todo) found) (.heartbeatAt now .ok) redis
        (.scanning todo found)
  | old {pool : PoolID} {todo : List PoolID} {found : List (PoolID × List String)}
      {now : Int64} {heartbeat : Heartbeat} :
      redis.heartbeat pool = some heartbeat →
      heartbeat.heartbeatAt.toInt + deadTime ≤ now.toInt →
      Case curJobTypes redis (.scanning (pool :: todo) found) (.heartbeatAt now .ok) redis
        (.reading pool todo found)
  | gone {pool : PoolID} {todo : List PoolID} {found : List (PoolID × List String)} :
      redis.heartbeat pool = none →
      Case curJobTypes redis (.reading pool todo found) (.jobNames .ok) redis
        (.scanning todo found)
  | dead {pool : PoolID} {todo : List PoolID} {found : List (PoolID × List String)}
      {heartbeat : Heartbeat} : redis.heartbeat pool = some heartbeat →
      Case curJobTypes redis (.reading pool todo found) (.jobNames .ok) redis
        (.scanning todo (found ++ [(pool, splitNames heartbeat.jobNames)]))
  | begun {found order : List (PoolID × List String)} : order.Perm found →
      Case curJobTypes redis (.scanning [] found) (.reap order) redis (proceed curJobTypes order)
  | requeued {pool : PoolID} {jobTypes : List String} {todo : List (PoolID × List String)}
      {reply : Reply} {name : String} {raw : RawJSON} {rest : List RawJSON} {after : State} :
      name ∈ jobTypes → redis.list (.inProgress pool name) = rest ++ [raw] →
      after = .requeueing pool jobTypes todo ∨ after = .idle →
      (reply = .ok → after = .requeueing pool jobTypes todo) →
      Case curJobTypes redis (.requeueing pool jobTypes todo) (.requeue reply)
        ((redis.move (.inProgress pool name) (.jobs name) rest raw).releaseLock name pool) after
  | emptied {pool : PoolID} {jobTypes : List String} {todo : List (PoolID × List String)} :
      (∀ name ∈ jobTypes, redis.list (.inProgress pool name) = []) →
      Case curJobTypes redis (.requeueing pool jobTypes todo) (.requeue .ok) redis
        (.deleting pool jobTypes todo)
  | deleted {pool : PoolID} {jobTypes : List String} {todo : List (PoolID × List String)}
      {reply : Reply} {after : State} : after = .removing pool jobTypes todo ∨ after = .idle →
      (reply = .ok → after = .removing pool jobTypes todo) →
      Case curJobTypes redis (.deleting pool jobTypes todo) (.delete reply)
        (delHeartbeat redis pool) after
  | removed {pool : PoolID} {lockJobTypes : List String} {todo : List (PoolID × List String)}
      {reply : Reply} {after : State} : after = .cleaning pool lockJobTypes todo ∨ after = .idle →
      (reply = .ok → after = .cleaning pool lockJobTypes todo) →
      Case curJobTypes redis (.removing pool lockJobTypes todo) (.remove reply)
        (sremPool redis pool) after
  | cleaned {pool : PoolID} {lockJobTypes : List String} {todo : List (PoolID × List String)}
      {reply : Reply} {after : State} : after = proceed curJobTypes todo ∨ after = .idle →
      (reply = .ok → after = proceed curJobTypes todo) →
      Case curJobTypes redis (.cleaning pool lockJobTypes todo) (.clean reply)
        (redis.redisLuaReapStaleLocks pool lockJobTypes) after
  | aborted {before : State} {event : Event} : event.reply ≠ .ok →
      Case curJobTypes redis before event redis .idle

theorem step_cases {curJobTypes : List String} {redis next : Store} {before after : State}
    {event : Event} (stepped : step curJobTypes redis before event = some (next, after)) :
    Case curJobTypes redis before event next after := by
  unfold step at stepped
  split at stepped
  · next order reply =>
      obtain ⟨complete, stepped⟩ := Option.ite_none_right_eq_some.mp stepped
      cases reply <;> cases stepped
      · exact .listed complete.2 complete.1
      · exact .aborted nofun
      · exact .aborted nofun
  · next pool todo found now reply =>
      cases reply with
      | ok =>
          cases beat : redis.heartbeat pool with
          | none =>
              simp only [Reply.deliver, beat] at stepped
              cases stepped
              exact .expired beat
          | some heartbeat =>
              simp only [Reply.deliver, beat] at stepped
              split at stepped
              · next young =>
                  cases stepped
                  exact .alive beat young
              · next late =>
                  cases stepped
                  exact .old beat (not_lt.mp late)
      | lost | failed =>
          cases stepped
          exact .aborted nofun
  · next pool todo found reply =>
      cases reply with
      | ok =>
          cases beat : redis.heartbeat pool with
          | none =>
              simp only [Reply.deliver, beat] at stepped
              cases stepped
              exact .gone beat
          | some heartbeat =>
              simp only [Reply.deliver, beat] at stepped
              cases stepped
              exact .dead beat
      | lost | failed =>
          cases stepped
          exact .aborted nofun
  · next found order =>
      obtain ⟨same, stepped⟩ := Option.ite_none_right_eq_some.mp stepped
      cases stepped
      exact .begun same
  · next pool jobTypes todo reply =>
      rcases redis.redisLuaReenqueueJob_cases pool jobTypes with
        ⟨nothing, empty⟩ | ⟨name, raw, rest, member, split, moved⟩
      · rw [nothing] at stepped
        cases reply <;> cases stepped
        · exact .emptied empty
        · exact .aborted nofun
        · exact .aborted nofun
      · rw [moved] at stepped
        cases reply <;> cases stepped
        · exact .requeued member split (.inl rfl) fun _ => rfl
        · exact .requeued member split (.inr rfl) nofun
        · exact .aborted nofun
  · next pool jobTypes todo reply =>
      cases reply <;> cases stepped
      · exact .deleted (.inl rfl) fun _ => rfl
      · exact .deleted (.inr rfl) nofun
      · exact .aborted nofun
  · next pool lockJobTypes todo reply =>
      cases reply <;> cases stepped
      · exact .removed (.inl rfl) fun _ => rfl
      · exact .removed (.inr rfl) nofun
      · exact .aborted nofun
  · next pool lockJobTypes todo reply =>
      cases reply <;> cases stepped
      · exact .cleaned (.inl rfl) fun _ => rfl
      · exact .cleaned (.inr rfl) nofun
      · exact .aborted nofun
  · cases stepped

end Reaper
